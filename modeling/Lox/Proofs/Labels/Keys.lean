import Lox.Proofs.Bindings

/-! Bindings under other names. -/

namespace Lox.Bindings

variable {α : Type} {f : String → String} {b : Bindings α} {name : String}

def mapKeys (f : String → String) (b : Bindings α) : Bindings α :=
  ⟨b.entries.map fun (name, value) => (f name, value)⟩

/-- No other name that is bound goes where `name` goes. -/
def Apart (f : String → String) (b : Bindings α) (name : String) : Prop :=
  ∀ other, b.contains other = true → f other = f name → other = name

lemma apart_of_injective (hf : Function.Injective f) : b.Apart f name :=
  fun _ _ h => hf h

lemma mem_entries_of_get? {value : α} (h : b.get? name = some value) : (name, value) ∈ b.entries := by
  obtain ⟨entries⟩ := b
  simp only [get?] at h
  induction entries with
  | nil => simp at h
  | cons entry rest ih =>
    obtain ⟨key, old⟩ := entry
    by_cases hkey : name = key
    · subst hkey
      obtain rfl : old = value := by simpa [List.lookup_cons] using h
      exact List.mem_cons_self ..
    · have hne : (name == key) = false := by simpa using hkey
      rw [List.lookup_cons, hne] at h
      exact List.mem_cons_of_mem _ (ih h)

lemma contains_iff_mem : b.contains name = true ↔ name ∈ b.entries.map Prod.fst := by
  constructor
  · intro h
    obtain ⟨value, hvalue⟩ := Option.isSome_iff_exists.mp h
    exact List.mem_map.mpr ⟨_, mem_entries_of_get? hvalue, rfl⟩
  · obtain ⟨entries⟩ := b
    simp only [contains, get?]
    induction entries with
    | nil => simp
    | cons entry rest ih =>
      obtain ⟨key, old⟩ := entry
      rw [List.map_cons, List.mem_cons, List.lookup_cons]
      by_cases hkey : name = key
      · simp [hkey]
      · have hne : (name == key) = false := by simpa using hkey
        rw [hne]
        rintro (h | h)
        · exact absurd h hkey
        · exact ih h

lemma contains_mapKeys :
    (b.mapKeys f).contains name = true ↔ ∃ other, b.contains other = true ∧ f other = name := by
  simp only [contains_iff_mem, mapKeys, List.map_map, List.mem_map, Function.comp_apply]
  constructor
  · rintro ⟨entry, hentry, rfl⟩
    exact ⟨entry.1, ⟨entry, hentry, rfl⟩, rfl⟩
  · rintro ⟨_, ⟨entry, hentry, rfl⟩, rfl⟩
    exact ⟨entry, hentry, rfl⟩

lemma Apart.tail {key : String} {value : α} {rest : List (String × α)}
    (h : (⟨(key, value) :: rest⟩ : Bindings α).Apart f name) :
    (⟨rest⟩ : Bindings α).Apart f name := by
  intro other hother
  refine h other ?_
  rw [contains_iff_mem] at hother ⊢
  exact List.mem_cons_of_mem _ hother

lemma Apart.key_beq {key : String} {value : α} {rest : List (String × α)}
    (h : (⟨(key, value) :: rest⟩ : Bindings α).Apart f name) : (f name == f key) = (name == key) := by
  have hkey := h key (contains_iff_mem.mpr (List.mem_cons_self ..))
  by_cases hname : name = key
  · simp [hname]
  · have hne : f name ≠ f key := fun heq => hname (hkey heq.symm).symm
    rw [beq_eq_false_iff_ne.mpr hname, beq_eq_false_iff_ne.mpr hne]

lemma get?_mapKeys (h : b.Apart f name) : (b.mapKeys f).get? (f name) = b.get? name := by
  obtain ⟨entries⟩ := b
  simp only [get?, mapKeys]
  induction entries with
  | nil => rfl
  | cons entry rest ih =>
    obtain ⟨key, old⟩ := entry
    rw [List.map_cons, List.lookup_cons, List.lookup_cons, h.key_beq, ih h.tail]

lemma mapKeys_insert (h : b.Apart f name) (value : α) :
    (b.insert name value).mapKeys f = (b.mapKeys f).insert (f name) value := by
  obtain ⟨entries⟩ := b
  refine congrArg Bindings.mk ?_
  simp only [insert, mapKeys]
  induction entries with
  | nil => rfl
  | cons entry rest ih =>
    obtain ⟨key, old⟩ := entry
    rw [List.map_cons, replaceIn, replaceIn, h.key_beq]
    split
    · rfl
    · rw [List.map_cons, ih h.tail]

lemma mapKeys_insertAll {entries : List (String × α)} (hb : ∀ entry ∈ entries, b.Apart f entry.1)
    (h : ∀ one ∈ entries, ∀ other ∈ entries, f one.1 = f other.1 → one.1 = other.1) :
    (b.insertAll entries).mapKeys f =
      (b.mapKeys f).insertAll (entries.map fun (name, value) => (f name, value)) := by
  induction entries generalizing b with
  | nil => rfl
  | cons entry rest ih =>
    obtain ⟨hentry, hrest⟩ := List.forall_mem_cons.mp hb
    have hinsert : ∀ other ∈ rest, (b.insert entry.1 entry.2).Apart f other.1 := by
      intro other hother third hthird hsame
      rw [contains_insert, Bool.or_eq_true, beq_iff_eq] at hthird
      rcases hthird with rfl | hthird
      · exact h entry (List.mem_cons_self ..) other (List.mem_cons_of_mem _ hother) hsame
      · exact hrest other hother third hthird hsame
    have hothers := ih hinsert fun one hone other hother =>
      h one (List.mem_cons_of_mem _ hone) other (List.mem_cons_of_mem _ hother)
    rw [mapKeys_insert hentry] at hothers
    exact hothers

@[simp] lemma mapKeys_id (b : Bindings α) : b.mapKeys id = b := by
  simp [mapKeys]

@[simp] lemma mapKeys_empty (f : String → String) : (∅ : Bindings α).mapKeys f = ∅ := rfl

end Lox.Bindings
