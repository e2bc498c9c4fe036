import Lox.Bindings
import Mathlib.Tactic.Common

/-! Bindings of which the values are changed. -/

namespace Lox.Bindings

variable {α β : Type}

def map (f : α → β) (b : Bindings α) : Bindings β :=
  ⟨b.entries.map fun (name, value) => (name, f value)⟩

@[simp] lemma map_empty (f : α → β) : (∅ : Bindings α).map f = ∅ := rfl

lemma get?_map (f : α → β) (b : Bindings α) (name : String) :
    (b.map f).get? name = (b.get? name).map f := by
  obtain ⟨entries⟩ := b
  simp only [get?, map]
  induction entries with
  | nil => rfl
  | cons entry rest ih =>
    obtain ⟨key, value⟩ := entry
    simp only [List.map_cons, List.lookup_cons]
    split
    · rfl
    · exact ih

lemma map_replaceIn (f : α → β) (name : String) (value : α) (entries : List (String × α)) :
    (replaceIn name value entries).map (fun (name, value) => (name, f value)) =
      replaceIn name (f value) (entries.map fun (name, value) => (name, f value)) := by
  induction entries with
  | nil => rfl
  | cons entry rest ih =>
    obtain ⟨key, old⟩ := entry
    simp only [replaceIn, List.map_cons]
    split
    · rfl
    · simp only [List.map_cons, ih]

lemma map_insert (f : α → β) (b : Bindings α) (name : String) (value : α) :
    (b.insert name value).map f = (b.map f).insert name (f value) :=
  congrArg Bindings.mk (map_replaceIn f name value b.entries)

lemma map_insertAll (f : α → β) (b : Bindings α) (entries : List (String × α)) :
    (b.insertAll entries).map f = (b.map f).insertAll
      (entries.map fun (name, value) => (name, f value)) := by
  simp only [insertAll]
  induction entries generalizing b with
  | nil => rfl
  | cons entry rest ih =>
    rw [List.foldl_cons, ih, List.map_cons, List.foldl_cons, map_insert]

lemma contains_insertAll (b : Bindings α) (entries : List (String × α)) (name : String) :
    (b.insertAll entries).contains name = true ↔
      b.contains name = true ∨ name ∈ entries.map Prod.fst := by
  induction entries generalizing b with
  | nil => simp [insertAll]
  | cons entry rest ih =>
    change ((b.insert entry.1 entry.2).insertAll rest).contains name = true ↔ _
    rw [ih, contains_insert, Bool.or_eq_true, beq_iff_eq, List.map_cons, List.mem_cons]
    tauto

lemma get?_insertAll_eq_some {b : Bindings α} {entries : List (String × α)} {name : String}
    {value : α} (h : (b.insertAll entries).get? name = some value) :
    b.get? name = some value ∨ (name, value) ∈ entries := by
  induction entries generalizing b with
  | nil => exact .inl h
  | cons entry rest ih =>
    rcases ih h with h | h
    · rw [get?_insert] at h
      split at h
      · rename_i hname
        obtain rfl := Option.some.inj h
        rw [hname]
        exact .inr (List.mem_cons_self ..)
      · exact .inl h
    · exact .inr (List.mem_cons_of_mem _ h)

end Lox.Bindings
