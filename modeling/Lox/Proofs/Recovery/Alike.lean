import Lox.Proofs.Recovery.Checked
import Lox.Proofs.Recovery.Statement

/-! When a parser under check does what it does without. -/

namespace Lox.Checked

open Lox.Parser (Passes Progress)

variable {α β γ : Type}

section Lift

@[simp] lemma lift_pure (a : α) : lift (pure a) = (pure a : Checked α) :=
  rfl

@[simp] lemma lift_bind (x : Parser α) (f : α → Parser β) :
    lift (x >>= f) = lift x >>= fun a => lift (f a) :=
  liftM_bind (n := ExceptT Alarm Parser) x f

@[simp] lemma lift_map (f : α → β) (x : Parser α) : lift (f <$> x) = f <$> lift x :=
  liftM_map (n := ExceptT Alarm Parser) f x

@[simp] lemma lift_ite (p : Prop) [Decidable p] (x y : Parser α) :
    lift (if p then x else y) = if p then lift x else lift y :=
  apply_ite lift p x y

end Lift

/-- How the computation ends from a cursor. -/
def ends (x : Checked α) (c : Cursor) : Except Stop (Except Alarm α) × Cursor :=
  outcome x.run c

lemma ext_ends {x y : Checked α} (h : ∀ c, ends x c = ends y c) : x = y :=
  funext h

lemma ends_bind (x : Checked α) (f : α → Checked β) (c : Cursor) :
    ends (x >>= f) c = match ends x c with
      | (.ok (.ok a), d) => ends (f a) d
      | (.ok (.error alarm), d) => (.ok (.error alarm), d)
      | (.error stop, d) => (.error stop, d) := by
  rw [ends, ExceptT.run_bind, outcome_bind, ends]
  rcases outcome x.run c with ⟨stop | alarm | a, d⟩ <;> rfl

lemma ends_lift (x : Parser α) (c : Cursor) :
    ends (lift x) c = ((outcome x c).1.map .ok, (outcome x c).2) := by
  change outcome (Except.ok <$> x) c = _
  rw [outcome_map]
  rcases outcome x c with ⟨stop | a, d⟩ <;> rfl

lemma ends_lift_bind (x : Parser α) (f : α → Checked β) (c : Cursor) :
    ends (lift x >>= f) c = match outcome x c with
      | (.ok a, d) => ends (f a) d
      | (.error stop, d) => (.error stop, d) := by
  rw [ends_bind, ends_lift]
  rcases outcome x c with ⟨stop | a, d⟩ <;> rfl

lemma ends_slice_bind (f : List Token → Checked α) (c : Cursor) :
    ends (slice >>= f) c = ends (f c.rest) c :=
  ends_lift_bind _ f c

lemma demand_true {p : Prop} [Decidable p] (h : p) (alarm : Alarm) : demand p alarm = pure () :=
  if_pos h

lemma ends_onFailure (x : Checked α) (handle : ParseError → Checked α) (c : Cursor) :
    ends (onFailure x handle) c = match ends x c with
      | (.ok result, d) => (.ok result, d)
      | (.error (.failed e), d) => ends (handle e) d
      | (.error .outOfFuel, d) => (.error .outOfFuel, d) := by
  change outcome (tryCatch x.run _) c = _
  rw [outcome_tryCatch, ends]
  rcases outcome x.run c with ⟨(e | _) | result, d⟩ <;> rfl

section Production

variable {x : Checked α} {y : Parser α} {c : Cursor}

/-- No alarm is raised by a production that passes a token, and fails where it stops. -/
lemma ends_production (hx : ends x c = ends (lift y) c) (h : Progress c 1 (outcome y c)) :
    ends (production x) c = ends (lift y) c := by
  rw [production, ends_slice_bind, ends_bind, ends_onFailure, hx, ends_lift]
  generalize outcome y c = r at h ⊢
  cases h with
  | outOfFuel d => rfl
  | failed rule hfatal hadvances =>
    rename_i cause d
    have hdrop : c.rest.drop (c.rest.length - (d.fault cause rule).remaining) = d.rest := by
      rw [Cursor.remaining_fault]
      exact (List.suffix_iff_eq_drop.mp hadvances.suffix).symm
    have hfound : (d.fault cause rule).FoundAt
        (c.rest.drop (c.rest.length - (d.fault cause rule).remaining)) := by
      rw [hdrop]
      exact d.foundAt_fault cause rule
    simp only [Except.map, demand_true hfound, pure_bind, ends_lift, outcome_throw]
  | ok a hadvances hpassed =>
    rename_i d
    have hproper : d.rest <:+ c.rest ∧ d.rest ≠ c.rest :=
      ⟨hadvances.suffix, fun hrest => by rw [hrest] at hpassed; omega⟩
    simp only [Except.map, ends_slice_bind, demand_true hproper, pure_bind]
    rfl

lemma production_lift (h : Passes false 1 y) : production (lift y) = lift y :=
  ext_ends fun c => ends_production rfl (h c nofun)

lemma ends_round (hx : ends x c = ends (lift y) c)
    (h : ∀ a d, Yields y c a d → d.rest.length < c.rest.length) :
    ends (round x) c = ends (lift y) c := by
  rw [round, ends_slice_bind, ends_bind, hx, ends_lift]
  rcases hy : outcome y c with ⟨stop | a, d⟩
  · rfl
  · simp only [Except.map, ends_slice_bind, demand_true (h a d hy), pure_bind]
    rfl

lemma yields_of_progress {used : Nat} (h : Progress c used (outcome y c)) {a : α} {d : Cursor}
    (hy : Yields y c a d) : d.rest.length + used ≤ c.rest.length := by
  rw [show outcome y c = _ from hy] at h
  cases h with
  | ok _ _ hpassed => exact hpassed

lemma round_lift (h : Passes false 1 y) : round (lift y) = lift y :=
  ext_ends fun c => ends_round rfl fun _ _ hy => yields_of_progress (h c nofun) hy

end Production

section Alike

variable {t : Token} {x x' : Checked α}

/-- The computations do the same in front of a token. -/
def Alike (t : Token) (x x' : Checked α) : Prop :=
  ∀ c, c.rest.head? = some t → ends x c = ends x' c

lemma alike_rfl : Alike t x x :=
  fun _ _ => rfl

lemma ends_skip_bind {c : Cursor} (h : c.rest.head? = some t) (f : Unit → Checked α) :
    ends (skip >>= f) c = ends (lift Parser.skip >>= f) c := by
  obtain ⟨rest, hrest⟩ := List.head?_eq_some_iff.mp h
  have hsome : 1 ≤ c.rest.length := by simp [hrest]
  rw [skip, bind_assoc, ends_slice_bind, demand_true hsome, pure_bind]

lemma alike_skip {f f' : Unit → Checked α} (h : f () = f' ()) :
    Alike t (skip >>= f) (lift Parser.skip >>= f') := by
  intro c hc
  obtain rfl : f = f' := funext fun _ => h
  exact ends_skip_bind hc f

lemma ends_first_bind {c : Cursor} (h : c.rest.head? = some t) (f : Token → Checked α) :
    ends (first >>= f) c = ends (f t) c := by
  obtain ⟨rest, hrest⟩ := List.head?_eq_some_iff.mp h
  rw [first, bind_assoc, ends_slice_bind, hrest]
  rfl

lemma Alike.production {y : Parser α} (h : Alike t x (lift y)) (hy : Passes true 1 y)
    (ht : t.kind ≠ .eof) : Alike t (production x) (lift y) :=
  fun c hc => ends_production (h c hc) (hy c fun _ => Parser.closes_of_head? hc ht)

lemma alike_round {y : Parser α} {f : α → Checked β} {g : α → Parser β} (h : Passes false 0 y)
    (hf : ∀ a, f a = lift (g a)) :
    Alike t (round (skip >>= fun _ => lift y) >>= f) (lift (Parser.skip >>= fun _ => y >>= g)) := by
  intro c hc
  obtain ⟨rest, hrest⟩ := List.head?_eq_some_iff.mp hc
  have hround : ends (round (skip >>= fun _ => lift y)) c =
      ends (lift (Parser.skip >>= fun _ => y)) c := by
    refine ends_round (by rw [ends_skip_bind hc, lift_bind]) fun a d hy => ?_
    obtain ⟨_, c', hskip, hy⟩ := yields_bind.mp hy
    have hpassed := yields_of_progress (h c' nofun) hy
    rw [← Parser.yields_skip.mp hskip, hrest] at hpassed
    rw [hrest]
    exact Nat.lt_succ_of_le hpassed
  obtain rfl : f = fun a => lift (g a) := funext hf
  rw [ends_bind, hround, ← ends_bind, ← lift_bind, bind_assoc]

lemma peek_congr {f f' : Option Token → Checked α} (hnone : f none = f' none)
    (hsome : ∀ t, Alike t (f (some t)) (f' (some t))) :
    lift Parser.peek >>= f = lift Parser.peek >>= f' := by
  refine ext_ends fun c => ?_
  rw [ends_lift_bind, ends_lift_bind, Parser.outcome_peek]
  dsimp only
  cases hc : c.rest.head? with
  | none => rw [hnone]
  | some t => exact hsome t c hc

lemma check_congr {kind : Token.Kind} {f f' : Bool → Checked α}
    (htrue : ∀ t, Alike t (f true) (f' true)) (hfalse : f false = f' false) :
    lift (Parser.check kind) >>= f = lift (Parser.check kind) >>= f' := by
  have hpeek : Parser.check kind = Parser.peek >>= fun t => pure (t.any (·.kind == kind)) := rfl
  simp only [hpeek, lift_bind, lift_pure, bind_assoc, pure_bind]
  refine peek_congr hfalse fun t => ?_
  dsimp only [Option.any_some]
  cases t.kind == kind
  · rw [hfalse]
    exact alike_rfl
  · exact htrue t

lemma peekOperator_congr {look : Parser (Option (γ × Nat))} {f f' : Option (γ × Nat) → Checked α}
    (operator? : Token.Kind → Option γ)
    (hlook : look = do return (← Parser.peek).bind fun t => (operator? t.kind).map (·, t.line))
    (hnone : f none = f' none) (hsome : ∀ found t, Alike t (f (some found)) (f' (some found))) :
    lift look >>= f = lift look >>= f' := by
  subst hlook
  simp only [lift_bind, lift_pure, bind_assoc, pure_bind]
  refine peek_congr hnone fun t => ?_
  rw [Option.bind_some]
  cases operator? t.kind with
  | none =>
    rw [Option.map_none, hnone]
    exact alike_rfl
  | some found => exact hsome (found, t.line) t

@[simp] lemma accept_lift (kind : Token.Kind) : accept kind = lift (Parser.accept kind) := by
  have haccept : Parser.accept kind = Parser.check kind >>= fun found =>
      if found then Parser.skip >>= fun _ => pure true else pure false := rfl
  rw [haccept, lift_bind, accept]
  refine check_congr (fun t => ?_) rfl
  rw [if_pos rfl, if_pos rfl, lift_bind]
  exact alike_skip rfl

end Alike

@[simp] lemma expect_lift {kind : Token.Kind} (hk : kind ≠ .eof) (what : String) (rule : Rule) :
    expect kind what rule = lift (Parser.expect kind what rule) :=
  production_lift (Parser.passes_expect hk what rule)

@[simp] lemma expectName_lift (what : String) (rule : Rule) :
    expectName what rule = lift (Parser.expectName what rule) := by
  rw [expectName, expect_lift (by decide), Parser.expectName, lift_bind]
  rfl

end Lox.Checked
