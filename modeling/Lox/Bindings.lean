/-!
What names are bound to. A name is bound once; binding it again replaces what it was bound to.
-/

namespace Lox

/-- Names and what they are bound to, the name bound first in front. -/
structure Bindings (α : Type) where
  entries : List (String × α)
deriving DecidableEq, Repr

namespace Bindings

variable {α : Type}

instance : EmptyCollection (Bindings α) :=
  ⟨⟨[]⟩⟩

def get? (b : Bindings α) (name : String) : Option α :=
  b.entries.lookup name

def contains (b : Bindings α) (name : String) : Bool :=
  (b.get? name).isSome

/-- Replaces the entry of a name, or puts one behind the others. -/
def replaceIn (name : String) (value : α) : List (String × α) → List (String × α)
  | [] => [(name, value)]
  | (other, old) :: rest =>
    if name == other then (name, value) :: rest else (other, old) :: replaceIn name value rest

def insert (b : Bindings α) (name : String) (value : α) : Bindings α :=
  ⟨replaceIn name value b.entries⟩

def insertAll (b : Bindings α) (entries : List (String × α)) : Bindings α :=
  entries.foldl (fun b (name, value) => b.insert name value) b

@[simp] theorem get?_empty (name : String) : (∅ : Bindings α).get? name = none :=
  rfl

theorem lookup_replaceIn (name other : String) (value : α) (entries : List (String × α)) :
    (replaceIn name value entries).lookup other =
      if other = name then some value else entries.lookup other := by
  induction entries with
  | nil => simp only [replaceIn, List.lookup_cons, List.lookup_nil]; grind
  | cons entry rest ih =>
    obtain ⟨key, old⟩ := entry
    by_cases hk : name = key
    · simp only [replaceIn, List.lookup_cons, beq_iff_eq, hk, if_true]; grind
    · simp only [replaceIn, List.lookup_cons, beq_iff_eq, hk, if_false, ih]; grind

@[simp] theorem get?_insert (b : Bindings α) (name other : String) (value : α) :
    (b.insert name value).get? other = if other = name then some value else b.get? other :=
  lookup_replaceIn ..

theorem contains_insert (b : Bindings α) (name other : String) (value : α) :
    (b.insert name value).contains other = (other == name || b.contains other) := by
  by_cases h : other = name <;> simp [contains, h]

end Bindings

end Lox
