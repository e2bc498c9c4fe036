import Mathlib.Tactic.Common

/-! Outcomes of computations that change a state and may stop, and when such a computation
yields a value. -/

namespace Lox

variable {ε σ α β : Type}

def outcome (x : ExceptT ε (StateM σ) α) (s : σ) : Except ε α × σ :=
  x.run.run s

@[simp] lemma outcome_pure (a : α) (s : σ) :
    outcome (pure a : ExceptT ε (StateM σ) α) s = (.ok a, s) := rfl

@[simp] lemma outcome_throw (e : ε) (s : σ) :
    outcome (throw e : ExceptT ε (StateM σ) α) s = (.error e, s) := rfl

@[simp] lemma outcome_get (s : σ) :
    outcome (get : ExceptT ε (StateM σ) σ) s = (.ok s, s) := rfl

@[simp] lemma outcome_modify (f : σ → σ) (s : σ) :
    outcome (modify f : ExceptT ε (StateM σ) Unit) s = (.ok (), f s) := rfl

@[simp] lemma outcome_modifyGet (f : σ → α × σ) (s : σ) :
    outcome (modifyGet f : ExceptT ε (StateM σ) α) s = (.ok (f s).1, (f s).2) := rfl

lemma outcome_bind (x : ExceptT ε (StateM σ) α) (f : α → ExceptT ε (StateM σ) β) (s : σ) :
    outcome (x >>= f) s = match outcome x s with
      | (.ok a, t) => outcome (f a) t
      | (.error e, t) => (.error e, t) := by
  change (match outcome x s with
    | (r, t) => (ExceptT.bindCont f r).run t) = _
  rcases outcome x s with ⟨r, t⟩
  cases r <;> rfl

lemma outcome_tryCatch (x : ExceptT ε (StateM σ) α) (f : ε → ExceptT ε (StateM σ) α) (s : σ) :
    outcome (tryCatch x f) s = match outcome x s with
      | (.ok a, t) => (.ok a, t)
      | (.error e, t) => outcome (f e) t := by
  change (match outcome x s with
    | (r, t) => StateT.run (match r with
      | Except.ok a => pure (Except.ok a)
      | Except.error e => (f e).run) t) = _
  rcases outcome x s with ⟨r, t⟩
  cases r <;> rfl

lemma outcome_map (x : ExceptT ε (StateM σ) α) (f : α → β) (s : σ) :
    outcome (f <$> x) s = match outcome x s with
      | (.ok a, t) => (.ok (f a), t)
      | (.error e, t) => (.error e, t) := by
  rw [← bind_pure_comp, outcome_bind]
  rcases outcome x s with ⟨r, t⟩
  cases r <;> rfl

def Yields (x : ExceptT ε (StateM σ) α) (s : σ) (a : α) (t : σ) : Prop :=
  outcome x s = (.ok a, t)

@[simp] lemma yields_pure {a b : α} {s t : σ} :
    Yields (pure a : ExceptT ε (StateM σ) α) s b t ↔ a = b ∧ s = t := by
  simp [Yields]

@[simp] lemma yields_throw {e : ε} {a : α} {s t : σ} :
    Yields (throw e : ExceptT ε (StateM σ) α) s a t ↔ False := by
  simp [Yields]

@[simp] lemma yields_get {s t u : σ} :
    Yields (get : ExceptT ε (StateM σ) σ) s t u ↔ s = t ∧ s = u := by
  simp [Yields]

@[simp] lemma yields_modify {f : σ → σ} {s t : σ} {u : Unit} :
    Yields (modify f : ExceptT ε (StateM σ) Unit) s u t ↔ f s = t := by
  simp [Yields]

@[simp] lemma yields_modifyGet {f : σ → α × σ} {a : α} {s t : σ} :
    Yields (modifyGet f : ExceptT ε (StateM σ) α) s a t ↔ f s = (a, t) := by
  simp [Yields, Prod.ext_iff]

@[simp] lemma yields_bind {x : ExceptT ε (StateM σ) α} {f : α → ExceptT ε (StateM σ) β} {b : β}
    {s u : σ} : Yields (x >>= f) s b u ↔ ∃ a t, Yields x s a t ∧ Yields (f a) t b u := by
  rw [Yields, outcome_bind]
  rcases h : outcome x s with ⟨r, t⟩
  cases r <;> simp [Yields, h]

@[simp] lemma yields_map {x : ExceptT ε (StateM σ) α} {f : α → β} {b : β} {s t : σ} :
    Yields (f <$> x) s b t ↔ ∃ a, Yields x s a t ∧ f a = b := by
  simp [← bind_pure_comp]

lemma yields_tryCatch {x : ExceptT ε (StateM σ) α} {f : ε → ExceptT ε (StateM σ) α} {a : α}
    {s t : σ} : Yields (tryCatch x f) s a t ↔
      Yields x s a t ∨ ∃ e u, outcome x s = (.error e, u) ∧ Yields (f e) u a t := by
  rw [Yields, outcome_tryCatch]
  rcases h : outcome x s with ⟨r, u⟩
  cases r <;> simp [Yields, h]

end Lox
