import Lox.Proofs.Outcome

/-! Two computations side by side: from states that are related the second does as the first. -/

namespace Lox

variable {ε δ σ τ α β γ κ : Type}

/-- The result that corresponds to one, when values and failures have counterparts. -/
def counterpart (value : α → β) (halt : ε → δ) : Except ε α → Except δ β
  | .ok a => .ok (value a)
  | .error e => .error (halt e)

structure Matches (related : σ → τ → Prop) (halt : ε → δ) (s : σ) (t : τ)
    (x : ExceptT ε (StateM σ) α) (y : ExceptT δ (StateM τ) β) (value : α → β) : Prop where
  result : (outcome y t).1 = counterpart value halt (outcome x s).1
  states : related (outcome x s).2 (outcome y t).2

variable {related : σ → τ → Prop} {halt : ε → δ} {s : σ} {t : τ}

lemma matches_pure {a : α} {b : β} {value : α → β} (h : related s t) (hb : b = value a) :
    Matches related halt s t (pure a) (pure b) value :=
  ⟨congrArg Except.ok hb, h⟩

lemma matches_throw {e : ε} {d : δ} (value : α → β) (h : related s t) (hd : d = halt e) :
    Matches related halt s t (throw e) (throw d) value :=
  ⟨congrArg Except.error hd, h⟩

/-- What comes after the first parts starts where the first one ends with a value. -/
lemma Matches.bind {x : ExceptT ε (StateM σ) α} {y : ExceptT δ (StateM τ) β} {value : α → β}
    {f : α → ExceptT ε (StateM σ) γ} {g : β → ExceptT δ (StateM τ) κ} {value' : γ → κ}
    (h : Matches related halt s t x y value)
    (hf : ∀ a s' t', outcome x s = (.ok a, s') → related s' t' →
      Matches related halt s' t' (f a) (g (value a)) value') :
    Matches related halt s t (x >>= f) (y >>= g) value' := by
  obtain ⟨hresult, hstates⟩ := h
  rcases hx : outcome x s with ⟨e | a, s'⟩ <;> rcases hy : outcome y t with ⟨d | b, t'⟩ <;>
    simp only [hx, hy, counterpart, Except.error.injEq, Except.ok.injEq, reduceCtorEq] at hresult hstates
  · constructor
    · rw [outcome_bind, outcome_bind, hx, hy]
      exact congrArg Except.error hresult
    · rw [outcome_bind, outcome_bind, hx, hy]
      exact hstates
  · subst hresult
    obtain ⟨hresult', hstates'⟩ := hf a s' t' hx hstates
    constructor
    · rw [outcome_bind, outcome_bind, hx, hy]
      exact hresult'
    · rw [outcome_bind, outcome_bind, hx, hy]
      exact hstates'

lemma Matches.map {x : ExceptT ε (StateM σ) α} {y : ExceptT δ (StateM τ) β} {value : α → β}
    (h : Matches related halt s t x y value) {f : α → γ} {g : β → κ} {value' : γ → κ}
    (hf : ∀ a, g (value a) = value' (f a)) :
    Matches related halt s t (f <$> x) (g <$> y) value' := by
  rw [← bind_pure_comp, ← bind_pure_comp]
  exact h.bind fun a _ _ _ hrelated => matches_pure hrelated (hf a)

lemma Matches.ite {p : Prop} [Decidable p] {x x' : ExceptT ε (StateM σ) α}
    {y y' : ExceptT δ (StateM τ) β} {value : α → β} (ht : p → Matches related halt s t x y value)
    (hf : ¬ p → Matches related halt s t x' y' value) :
    Matches related halt s t (if p then x else x') (if p then y else y') value := by
  split
  · exact ht ‹p›
  · exact hf ‹¬ p›

lemma matches_get {f : σ → ExceptT ε (StateM σ) α} {g : τ → ExceptT δ (StateM τ) β}
    {value : α → β} (h : Matches related halt s t (f s) (g t) value) :
    Matches related halt s t (get >>= f) (get >>= g) value := by
  obtain ⟨hresult, hstates⟩ := h
  constructor
  · rw [outcome_bind, outcome_bind, outcome_get, outcome_get]
    exact hresult
  · rw [outcome_bind, outcome_bind, outcome_get, outcome_get]
    exact hstates

end Lox
