import Lox.Proofs.Recovery.Advance

/-! What a parser passes, and where it fails. -/

namespace Lox.Parser

variable {α β : Type}

/-- How a parser ends that began at a cursor: some tokens further on, or at a fatal fault, which is
found where it stops. -/
inductive Progress (c : Cursor) (used : Nat) : Except Stop α × Cursor → Prop
  | ok (a : α) {d : Cursor} (advances : c.Advances d)
      (passed : d.rest.length + used ≤ c.rest.length) : Progress c used (.ok a, d)
  | failed {cause : ParseError.Cause} (rule : Rule) {d : Cursor} (fatal : cause.isFatal = true)
      (advances : c.Advances d) : Progress c used (.error (.failed (d.fault cause rule)), d)
  | outOfFuel (d : Cursor) : Progress c used (.error .outOfFuel, d)

/-- The parser passes so many tokens at least, if it succeeds. One that is `inside` needs a token in
front of it that is no end mark. -/
def Passes (inside : Bool) (used : Nat) (x : Parser α) : Prop :=
  ∀ c, (inside = true → closes false c.rest = false) → Progress c used (outcome x c)

variable {inside : Bool} {used used' : Nat} {x y : Parser α} {f : α → Parser β} {c : Cursor}

lemma Progress.uses {r : Except Stop α × Cursor} (h : Progress c used r) (hused : used' ≤ used) :
    Progress c used' r := by
  cases h with
  | ok a hadvances hpassed => exact .ok a hadvances (by omega)
  | failed rule hfatal hadvances => exact .failed rule hfatal hadvances
  | outOfFuel d => exact .outOfFuel d

lemma Passes.uses (h : Passes inside used x) (hused : used' ≤ used) : Passes inside used' x :=
  fun c hc => (h c hc).uses hused

lemma Passes.anywhere (h : Passes false used x) : Passes inside used x :=
  fun c _ => h c nofun

lemma passes_pure (a : α) : Passes inside 0 (pure a) :=
  fun c _ => .ok a (.refl c) (Nat.le_refl _)

lemma passes_outOfFuel : Passes inside used (throw .outOfFuel : Parser α) :=
  fun c _ => .outOfFuel c

lemma Passes.bindAll (h : Passes inside used x) (hf : ∀ a, Passes false used' (f a)) :
    Passes inside (used + used') (x >>= f) := by
  intro c hc
  have hx := h c hc
  rw [outcome_bind]
  generalize outcome x c = r at hx ⊢
  cases hx with
  | outOfFuel d => exact .outOfFuel d
  | failed rule hfatal hadvances => exact .failed rule hfatal hadvances
  | @ok a d hadvances hpassed =>
    have hrest := hf a d nofun
    dsimp only
    generalize outcome (f a) d = r at hrest ⊢
    cases hrest with
    | outOfFuel d => exact .outOfFuel d
    | failed rule hfatal hadvances' => exact .failed rule hfatal (hadvances.trans hadvances')
    | ok b hadvances' hpassed' => exact .ok b (hadvances.trans hadvances') (by omega)

/-- The tokens that are counted are those that the second part passes. -/
lemma Passes.bind (h : Passes inside used x) (hf : ∀ a, Passes false used' (f a)) :
    Passes inside used' (x >>= f) :=
  (h.bindAll hf).uses (Nat.le_add_left ..)

/-- The tokens that are counted are those that the first part passes. -/
lemma Passes.first (h : Passes inside used x) (hf : ∀ a, Passes false 0 (f a)) :
    Passes inside used (x >>= f) :=
  h.bindAll hf

lemma Passes.map (h : Passes inside used x) (k : α → β) : Passes inside used (k <$> x) := by
  rw [← bind_pure_comp]
  exact h.first fun a => passes_pure (k a)

lemma Passes.ite {p : Prop} [Decidable p] (ht : Passes inside used x) (hf : Passes inside used y) :
    Passes inside used (if p then x else y) := by
  split
  · exact ht
  · exact hf

lemma closes_of_head? {t : Token} (h : c.rest.head? = some t) (ht : t.kind ≠ .eof) :
    closes false c.rest = false := by
  simpa [closes, h] using ht

lemma passes_peek {f : Option Token → Parser α} (hf : ∀ t, t.kind = .eof → f (some t) = f none)
    (hnone : Passes false used (f none)) (hsome : ∀ t, t.kind ≠ .eof → Passes true used (f (some t))) :
    Passes false used (peek >>= f) := by
  intro c _
  rw [outcome_bind, outcome_peek]
  dsimp only
  cases hhead : c.rest.head? with
  | none => exact hnone c nofun
  | some t =>
    by_cases ht : t.kind = .eof
    · rw [hf t ht]
      exact hnone c nofun
    · exact hsome t ht c fun _ => closes_of_head? hhead ht

lemma passes_check {kind : Token.Kind} (hk : kind ≠ .eof) (ht : Passes true used x)
    (hf : Passes false used y) : Passes false used (do if ← check kind then x else y) := by
  intro c _
  rw [outcome_bind, outcome_check]
  dsimp only
  split
  · rename_i hfound
    obtain ⟨t, hhead, hkind⟩ := (Option.any_eq_true _ _).mp hfound
    exact ht c fun _ => closes_of_head? hhead (by simp_all)
  · exact hf c nofun

lemma passes_skip : Passes true 1 skip := by
  intro c hc
  have hinside := hc rfl
  rw [outcome_skip]
  refine .ok () (.skip hinside) ?_
  cases hrest : c.rest with
  | nil => simp [hrest, closes] at hinside
  | cons t rest => exact Nat.le_refl _

lemma accept_bind (kind : Token.Kind) (f : Bool → Parser α) :
    accept kind >>= f = (do if ← check kind then skip >>= fun _ => f true else f false) := by
  rw [accept, bind_assoc]
  congr 1
  funext found
  cases found <;> rfl

lemma passes_accept {kind : Token.Kind} {f : Bool → Parser α} (hk : kind ≠ .eof)
    (ht : Passes false used (f true)) (hf : Passes false used (f false)) :
    Passes false used (accept kind >>= f) := by
  rw [accept_bind]
  exact passes_check hk (passes_skip.bind fun _ => ht) hf

lemma passes_faultHere {f : ParseError → Parser α} {cause : ParseError.Cause} {rule : Rule}
    (h : ∀ e, e.cause = cause → Passes inside used (f e)) :
    Passes inside used (faultHere cause rule >>= f) := by
  intro c hc
  rw [outcome_bind, outcome_faultHere]
  exact h _ (c.cause_fault cause rule) c hc

lemma passes_fail {cause : ParseError.Cause} (h : cause.isFatal = true) (rule : Rule) :
    Passes inside used (fail cause rule : Parser α) := by
  intro c _
  rw [outcome_fail]
  exact .failed rule h (.refl c)

lemma passes_report {e : ParseError} (h : e.isFatal = false) : Passes inside 0 (report e) :=
  fun _ _ => .ok () (.report h) (Nat.le_refl _)

lemma passes_newReference (name : Name) : Passes inside 0 (newReference name) :=
  fun _ _ => .ok _ (.of_fatal ⟨[], unended_nil, rfl⟩ rfl) (Nat.le_refl _)

lemma passes_expect {kind : Token.Kind} (hk : kind ≠ .eof) (what : String) (rule : Rule) :
    Passes false 1 (expect kind what rule) := by
  have hmark (t : Token) (hend : t.kind = .eof) : t.kind ≠ kind := fun h => hk (h ▸ hend)
  refine passes_peek (fun t hend => if_neg (hmark t hend)) (passes_fail rfl rule)
    fun t _ => .ite ?_ (passes_fail rfl rule)
  exact passes_skip.first fun _ => passes_pure t

lemma passes_expectName (what : String) (rule : Rule) : Passes false 1 (expectName what rule) :=
  (passes_expect (by decide) what rule).first fun t => passes_pure t.name

lemma passes_limit (count : Nat) (what : String) (rule : Rule) :
    Passes false 0 (limit count what rule) :=
  .ite (passes_faultHere fun e he => passes_report (by rw [ParseError.isFatal, he]; rfl))
    (passes_pure ())

lemma passes_peekOperator {γ : Type} {look : Parser (Option (γ × Nat))} {f : Option (γ × Nat) → Parser α}
    (operator? : Token.Kind → Option γ)
    (hlook : look = do return (← peek).bind fun t => (operator? t.kind).map (·, t.line))
    (hk : operator? .eof = none) (hnone : Passes false used (f none))
    (hsome : ∀ found, Passes true used (f (some found))) : Passes false used (look >>= f) := by
  subst hlook
  simp only [bind_assoc, pure_bind]
  refine passes_peek (fun t hend => ?_) hnone fun t _ => ?_
  · rw [Option.bind_some, hend, hk]
    rfl
  · rw [Option.bind_some]
    cases operator? t.kind with
    | none => exact hnone.anywhere
    | some found => exact hsome (found, t.line)

lemma closes_of_inBlock {inBlock : Bool} {rest : List Token} (h : closes inBlock rest = false) :
    closes false rest = false := by
  cases rest <;> simp_all [closes]

lemma passes_atClose {inBlock : Bool} (ht : Passes false used x) (hf : Passes true used y) :
    Passes false used (do if ← atClose inBlock then x else y) := by
  intro c _
  rw [outcome_bind, outcome_atClose]
  dsimp only
  split
  · exact ht c nofun
  · rename_i hopen
    exact hf c fun _ => closes_of_inBlock (Bool.eq_false_iff.mpr hopen)

end Lox.Parser
