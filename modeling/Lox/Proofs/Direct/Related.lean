import Lox.Proofs.Bindings
import Mathlib.Data.Option.Defs

/-! Entries that are found on both sides, and are related, or on neither. -/

namespace Lox.Direct

variable {α β γ : Type}

lemma rel_refl (x : Option α) : Option.Rel Eq x x := by
  cases x with
  | none => exact .none
  | some a => exact .some rfl

lemma rel_imp {r r' : α → β → Prop} (h : ∀ a b, r a b → r' a b) {x : Option α} {y : Option β}
    (hr : Option.Rel r x y) : Option.Rel r' x y := by
  cases hr with
  | some hab => exact .some (h _ _ hab)
  | none => exact .none

lemma rel_cases {r : α → β → Prop} {x : Option α} {y : Option β} (h : Option.Rel r x y) :
    x = none ∧ y = none ∨ ∃ a b, x = some a ∧ y = some b ∧ r a b := by
  cases h with
  | some hab => exact .inr ⟨_, _, rfl, rfl, hab⟩
  | none => exact .inl ⟨rfl, rfl⟩

lemma getElem?_cases {xs : Array α} {ys : Array β} (h : ys.size = xs.size) (i : Nat) :
    xs[i]? = none ∧ ys[i]? = none ∨ ∃ x y, xs[i]? = some x ∧ ys[i]? = some y := by
  rcases Nat.lt_or_ge i xs.size with hlt | hle
  · exact .inr ⟨_, _, Array.getElem?_eq_getElem hlt, Array.getElem?_eq_getElem (h ▸ hlt)⟩
  · exact .inl ⟨Array.getElem?_eq_none hle, Array.getElem?_eq_none (h ▸ hle)⟩

lemma rel_insertAll {r : α → β → Prop} {f : γ → String × α} {g : γ → String × β} {items : List γ}
    (hfg : ∀ item ∈ items, (f item).1 = (g item).1 ∧ r (f item).2 (g item).2) {a : Bindings α}
    {b : Bindings β} (h : ∀ name, Option.Rel r (a.get? name) (b.get? name)) (name : String) :
    Option.Rel r ((a.insertAll (items.map f)).get? name) ((b.insertAll (items.map g)).get? name) := by
  induction items generalizing a b with
  | nil => exact h name
  | cons item rest ih =>
    obtain ⟨⟨hname, hvalue⟩, hrest⟩ := List.forall_mem_cons.mp hfg
    refine ih hrest fun other => ?_
    rw [Bindings.get?_insert, Bindings.get?_insert, hname]
    split
    · exact .some hvalue
    · exact h other

end Lox.Direct
