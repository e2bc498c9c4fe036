import Lox.Proofs.Grammar.Derivation
import Lox.Proofs.Grammar.Steps

/-! Two parsers that read the same tokens up to an end. What comes behind an end mark, and whether there
is one at all, makes no difference but for the line of a fault at the end. -/

namespace Lox

/-- Faults that say the same, except that at the end each has a line of its own. -/
structure ParseError.Alike (ending ending' : Nat) (e e' : ParseError) : Prop where
  cause : e.cause = e'.cause
  rule : e.rule = e'.rule
  found : e.found = e'.found
  line : e.found ≠ none → e.line = e'.line
  atEnd : e.found = none → e.line = ending ∧ e'.line = ending'

/-- The line of the end in front of the tokens left. -/
def Token.endLine (rest : List Token) : Nat :=
  rest.head?.elim 0 Token.line

/-- What two readers have behind the tokens that they both have: nothing, or an end mark and whatever
comes then. -/
structure Endings where
  first : List Token
  second : List Token
  first_closes : Parser.closes false first = true
  second_closes : Parser.closes false second = true

namespace Endings

open Lox.Parser

variable {α β : Type} {E : Endings} {front behind : List Token} {c d : Cursor}
  {least size used used' : Nat} {x y : Parser α} {f g : α → Parser β}

abbrev Alike (E : Endings) : ParseError → ParseError → Prop :=
  ParseError.Alike (Token.endLine E.first) (Token.endLine E.second)

/-- Readers that have the same tokens in front of them up to the end, and have met the same faults. -/
structure Abreast (E : Endings) (front : List Token) (c d : Cursor) : Prop where
  unended : Unended front
  rest : c.rest = front ++ E.first
  rest' : d.rest = front ++ E.second
  nextId : c.nextId = d.nextId
  errors : List.Forall₂ E.Alike c.errors d.errors

/-- Two readers come to the same: to one value and past so many tokens at least, or to a fault, found
where they are then. -/
inductive Alongside (E : Endings) (front : List Token) (used : Nat) :
    Except Stop α × Cursor → Except Stop α × Cursor → Prop
  | ok (a : α) {behind : List Token} {c d : Cursor} (suffix : behind <:+ front)
      (passed : behind.length + used ≤ front.length) (abreast : E.Abreast behind c d) :
      Alongside E front used (.ok a, c) (.ok a, d)
  | failed (cause : ParseError.Cause) (rule : Rule) {behind : List Token} {c d : Cursor}
      (suffix : behind <:+ front) (abreast : E.Abreast behind c d) :
      Alongside E front used (.error (.failed (c.fault cause rule)), c)
        (.error (.failed (d.fault cause rule)), d)

/-- Parsers that come to the same, and past `used` tokens, where there are `least` tokens at least and
`size` at most up to the end. -/
def Agree (E : Endings) (least size used : Nat) (x y : Parser α) : Prop :=
  ∀ front c d, least ≤ front.length → front.length ≤ size → E.Abreast front c d →
    E.Alongside front used (outcome x c) (outcome y d)

lemma Alongside.uses {front : List Token} {r r' : Except Stop α × Cursor}
    (h : E.Alongside front used r r') (hused : used' ≤ used) : E.Alongside front used' r r' := by
  cases h with
  | ok a hsuffix hpassed habreast => exact .ok a hsuffix (by omega) habreast
  | failed cause rule hsuffix habreast => exact .failed cause rule hsuffix habreast

lemma Agree.uses (h : E.Agree least size used x y) (hused : used' ≤ used) :
    E.Agree least size used' x y :=
  fun front c d hleast hsize hcd => (h front c d hleast hsize hcd).uses hused

lemma Agree.anyLeast (h : E.Agree 0 size used x y) : E.Agree least size used x y :=
  fun front c d _ hsize hcd => h front c d (Nat.zero_le _) hsize hcd

lemma agree_pure (a : α) : E.Agree least size 0 (pure a) (pure a) :=
  fun front _ _ _ _ hcd => .ok a (List.suffix_refl front) (Nat.le_refl _) hcd

lemma Agree.bindAll (h : E.Agree least size used x y)
    (hf : ∀ a left, left + used ≤ size → E.Agree 0 left used' (f a) (g a)) :
    E.Agree least size (used + used') (x >>= f) (y >>= g) := by
  intro front c d hleast hsize hcd
  have hxy := h front c d hleast hsize hcd
  rw [outcome_bind, outcome_bind]
  generalize outcome x c = r, outcome y d = r' at hxy ⊢
  cases hxy with
  | failed cause rule hsuffix habreast => exact .failed cause rule hsuffix habreast
  | @ok a behind c d hsuffix hpassed habreast =>
    -- The second part reads what the first has left, and no more than that is up to the end.
    have hrest := hf a behind.length (by omega) behind c d (Nat.zero_le _) (Nat.le_refl _) habreast
    dsimp only
    generalize outcome (f a) c = r, outcome (g a) d = r' at hrest ⊢
    cases hrest with
    | ok b hsuffix' hpassed' habreast' =>
      exact .ok b (hsuffix'.trans hsuffix) (by omega) habreast'
    | failed cause rule hsuffix' habreast' =>
      exact .failed cause rule (hsuffix'.trans hsuffix) habreast'

/-- The tokens that are counted are those that the second part passes. -/
lemma Agree.bind (h : E.Agree least size used x y)
    (hf : ∀ a left, left + used ≤ size → E.Agree 0 left used' (f a) (g a)) :
    E.Agree least size used' (x >>= f) (y >>= g) :=
  (h.bindAll hf).uses (Nat.le_add_left ..)

/-- The tokens that are counted are those that the first part passes. -/
lemma Agree.first (h : E.Agree least size used x y)
    (hf : ∀ a left, left + used ≤ size → E.Agree 0 left 0 (f a) (g a)) :
    E.Agree least size used (x >>= f) (y >>= g) :=
  h.bindAll hf

lemma Agree.map (h : E.Agree least size used x y) (k : α → β) :
    E.Agree least size used (k <$> x) (k <$> y) := by
  rw [← bind_pure_comp, ← bind_pure_comp]
  exact h.first fun a _ _ => agree_pure (k a)

lemma Agree.ite {p : Prop} [Decidable p] {x' y' : Parser α} (ht : E.Agree least size used x y)
    (hf : E.Agree least size used x' y') :
    E.Agree least size used (if p then x else x') (if p then y else y') := by
  split
  · exact ht
  · exact hf

lemma head?_of_closes {rest : List Token} (h : Parser.closes false rest = true) :
    rest.head? = none ∨ ∃ mark, rest.head? = some mark ∧ mark.kind = .eof := by
  cases rest <;> simp_all [Parser.closes]

lemma Abreast.head? (h : E.Abreast front c d) :
    front = [] ∧ c.rest = E.first ∧ d.rest = E.second ∨
      ∃ t, 1 ≤ front.length ∧ t.kind ≠ .eof ∧ c.rest.head? = some t ∧ d.rest.head? = some t := by
  obtain ⟨hunended, hrest, hrest', -, -⟩ := h
  cases front with
  | nil => exact .inl ⟨rfl, hrest, hrest'⟩
  | cons t front =>
    rw [hrest, hrest']
    exact .inr ⟨t, Nat.succ_le_succ (Nat.zero_le _), (unended_cons.mp hunended).1, rfl, rfl⟩

lemma agree_peek {f g : Option Token → Parser α} (hf : ∀ t, t.kind = .eof → f (some t) = f none)
    (hg : ∀ t, t.kind = .eof → g (some t) = g none) (hnone : E.Agree 0 size used (f none) (g none))
    (hsome : ∀ t, t.kind ≠ .eof → E.Agree 1 size used (f (some t)) (g (some t))) :
    E.Agree 0 size used (peek >>= f) (peek >>= g) := by
  intro front c d hleast hsize hcd
  rw [outcome_bind, outcome_bind, outcome_peek, outcome_peek]
  dsimp only
  rcases hcd.head? with ⟨-, hrest, hrest'⟩ | ⟨t, hfront, ht, hc, hd⟩
  · have hends (f : Option Token → Parser α) (hf : ∀ t, t.kind = .eof → f (some t) = f none)
        {rest : List Token} (hclosed : Parser.closes false rest = true) : f rest.head? = f none := by
      rcases head?_of_closes hclosed with hhead | ⟨mark, hhead, hmark⟩
      · rw [hhead]
      · rw [hhead, hf mark hmark]
    have h := hnone front c d hleast hsize hcd
    rwa [← hends f hf E.first_closes, ← hends g hg E.second_closes, ← hrest, ← hrest'] at h
  · rw [hc, hd]
    exact hsome t ht front c d hfront hsize hcd

lemma agree_check {kind : Token.Kind} {x' y' : Parser α} (hk : kind ≠ .eof)
    (ht : E.Agree 1 size used x y) (hf : E.Agree 0 size used x' y') :
    E.Agree 0 size used (do if ← check kind then x else x') (do if ← check kind then y else y') := by
  have hmark {t : Token} (hend : t.kind = .eof) : (some t).any (·.kind == kind) = false := by
    simpa [hend] using hk.symm
  have heq (x x' : Parser α) : (do if ← check kind then x else x') =
      peek >>= fun next => if next.any (·.kind == kind) then x else x' := by
    simp only [check, bind_assoc, pure_bind]
  rw [heq, heq]
  refine agree_peek (fun t hend => ?_) (fun t hend => ?_) hf fun t _ => ht.ite hf.anyLeast
  all_goals rw [hmark hend]; rfl

lemma agree_checkBind {kind : Token.Kind} {x' y' : Parser α} {u u' : Nat} (hk : kind ≠ .eof)
    (ht : E.Agree 1 size u x y) (hf : E.Agree 0 size u' x' y')
    (hrest : ∀ a left, left ≤ size → E.Agree 0 left used (f a) (g a)) :
    E.Agree 0 size used (do if ← check kind then x >>= f else x' >>= f)
      (do if ← check kind then y >>= g else y' >>= g) :=
  agree_check hk (ht.bind fun a left hleft => hrest a left (by omega))
    (hf.bind fun a left hleft => hrest a left (by omega))

lemma agree_skip : E.Agree 1 size 1 skip skip := by
  rintro (_ | ⟨t, front⟩) c d hleast - ⟨hunended, hrest, hrest', hid, herrors⟩
  · simp at hleast
  · rw [outcome_skip, outcome_skip]
    refine .ok () (List.suffix_cons t front) (Nat.le_refl _)
      ⟨(unended_cons.mp hunended).2, ?_, ?_, hid, herrors⟩
    · rw [hrest]
      rfl
    · rw [hrest']
      rfl

lemma agree_accept {kind : Token.Kind} {x' y' : Parser α} (hk : kind ≠ .eof)
    (ht : ∀ left, left + 1 ≤ size → E.Agree 0 left used x y) (hf : E.Agree 0 size used x' y') :
    E.Agree 0 size used (do if ← accept kind then x else x') (do if ← accept kind then y else y') := by
  have heq (x x' : Parser α) : (do if ← accept kind then x else x') =
      (do if ← check kind then skip >>= fun _ => x else x') := by
    rw [accept, bind_assoc]
    congr 1
    funext found
    cases found <;> rfl
  rw [heq, heq]
  exact agree_check hk (agree_skip.bind fun _ => ht) hf

lemma agree_acceptBind {kind : Token.Kind} {x' y' : Parser α} {u u' : Nat} (hk : kind ≠ .eof)
    (ht : ∀ left, left + 1 ≤ size → E.Agree 0 left u x y) (hf : E.Agree 0 size u' x' y')
    (hrest : ∀ a left, left ≤ size → E.Agree 0 left used (f a) (g a)) :
    E.Agree 0 size used (do if ← accept kind then x >>= f else x' >>= f)
      (do if ← accept kind then y >>= g else y' >>= g) :=
  agree_accept hk (fun inner hinner => (ht inner hinner).bind fun a left hleft =>
    hrest a left (by omega)) (hf.bind fun a left hleft => hrest a left (by omega))

lemma Abreast.fault (h : E.Abreast front c d) (cause : ParseError.Cause) (rule : Rule) :
    E.Alike (c.fault cause rule) (d.fault cause rule) := by
  have hends {rest tail : List Token} (hrest : rest = tail) (hclosed : Parser.closes false tail = true)
      (n : Nat) (errors : List ParseError) :
      ∃ remaining, Cursor.fault ⟨rest, n, errors⟩ cause rule =
        ⟨cause, Token.endLine tail, none, rule, remaining⟩ := by
    subst hrest
    cases rest <;> simp_all [Cursor.fault, Token.endLine, Token.found?, Parser.closes]
  obtain ⟨hunended, hrest, hrest', -, -⟩ := h
  -- At the end each reader has an end of its own; in front of it both have the same token.
  cases front with
  | nil =>
    obtain ⟨remaining, hc⟩ := hends hrest E.first_closes c.nextId c.errors
    obtain ⟨remaining', hd⟩ := hends hrest' E.second_closes d.nextId d.errors
    rw [hc, hd]
    exact ⟨rfl, rfl, rfl, fun hfound => absurd rfl hfound, fun _ => ⟨rfl, rfl⟩⟩
  | cons t front =>
    have ht : t.found? = some t.lexeme := if_neg (unended_cons.mp hunended).1
    have hfault {rest tail : List Token} (hrest : rest = t :: front ++ tail) (n : Nat)
        (errors : List ParseError) : ∃ remaining, Cursor.fault ⟨rest, n, errors⟩ cause rule =
          ⟨cause, t.line, some t.lexeme, rule, remaining⟩ := by
      subst hrest
      rw [← ht]
      exact ⟨_, rfl⟩
    obtain ⟨remaining, hc⟩ := hfault hrest c.nextId c.errors
    obtain ⟨remaining', hd⟩ := hfault hrest' d.nextId d.errors
    rw [hc, hd]
    exact ⟨rfl, rfl, rfl, fun _ => rfl, fun hnone => absurd hnone (by simp)⟩

lemma agree_faultHere {f g : ParseError → Parser α} {cause : ParseError.Cause} {rule : Rule}
    (h : ∀ e e', E.Alike e e' → E.Agree least size used (f e) (g e')) :
    E.Agree least size used (faultHere cause rule >>= f) (faultHere cause rule >>= g) := by
  intro front c d hleast hsize hcd
  rw [outcome_bind, outcome_bind, outcome_faultHere, outcome_faultHere]
  exact h _ _ (hcd.fault cause rule) front c d hleast hsize hcd

lemma agree_fail (cause : ParseError.Cause) (rule : Rule) :
    E.Agree least size used (fail cause rule : Parser α) (fail cause rule) := by
  intro front c d _ _ hcd
  rw [outcome_fail, outcome_fail]
  exact .failed cause rule (List.suffix_refl front) hcd

lemma agree_report {e e' : ParseError} (h : E.Alike e e') :
    E.Agree least size 0 (report e) (report e') :=
  fun front _ _ _ _ ⟨hunended, hrest, hrest', hid, herrors⟩ =>
    .ok () (List.suffix_refl front) (Nat.le_refl _) ⟨hunended, hrest, hrest', hid, .cons h herrors⟩

lemma agree_newReference (name : Name) :
    E.Agree least size 0 (newReference name) (newReference name) := by
  rintro front c d _ _ ⟨hunended, hrest, hrest', hid, herrors⟩
  rw [outcome_newReference, outcome_newReference, hid]
  exact .ok _ (List.suffix_refl front) (Nat.le_refl _) ⟨hunended, hrest, hrest', rfl, herrors⟩

lemma agree_expect {kind : Token.Kind} (hk : kind ≠ .eof) (what : String) (rule : Rule) :
    E.Agree 0 size 1 (expect kind what rule) (expect kind what rule) := by
  have hmark (t : Token) (hend : t.kind = .eof) : t.kind ≠ kind := fun h => hk (h ▸ hend)
  refine agree_peek (fun t hend => if_neg (hmark t hend)) (fun t hend => if_neg (hmark t hend))
    (agree_fail _ _) fun t _ => .ite ?_ (agree_fail _ _)
  exact agree_skip.first fun _ _ _ => agree_pure t

lemma agree_expectName (what : String) (rule : Rule) :
    E.Agree 0 size 1 (expectName what rule) (expectName what rule) :=
  (agree_expect (by decide) what rule).first fun t _ _ => agree_pure t.name

lemma agree_limit (count : Nat) (what : String) (rule : Rule) :
    E.Agree 0 size 0 (limit count what rule) (limit count what rule) :=
  .ite (agree_faultHere fun _ _ h => agree_report h) (agree_pure ())

lemma agree_peekOperator {γ : Type} {look : Parser (Option (γ × Nat))}
    {f g : Option (γ × Nat) → Parser α} (operator? : Token.Kind → Option γ)
    (hlook : look = do return (← peek).bind fun t => (operator? t.kind).map (·, t.line))
    (hk : operator? .eof = none) (hnone : E.Agree 0 size used (f none) (g none))
    (hsome : ∀ found, E.Agree 1 size used (f (some found)) (g (some found))) :
    E.Agree 0 size used (look >>= f) (look >>= g) := by
  subst hlook
  simp only [bind_assoc, pure_bind]
  have hmark {t : Token} (hend : t.kind = .eof) :
      ((some t).bind fun t => (operator? t.kind).map (·, t.line)) = none := by
    rw [Option.bind_some, hend, hk]
    rfl
  refine agree_peek (fun t hend => ?_) (fun t hend => ?_) hnone fun t _ => ?_
  · rw [hmark hend]
    rfl
  · rw [hmark hend]
    rfl
  · rw [Option.bind_some]
    cases operator? t.kind with
    | none => exact hnone.anyLeast
    | some found => exact hsome (found, t.line)

lemma agree_atClose {inBlock : Bool} {x' y' : Parser α} (ht : E.Agree 0 size used x y)
    (hf : E.Agree 1 size used x' y') :
    E.Agree 0 size used (do if ← atClose inBlock then x else x')
      (do if ← atClose inBlock then y else y') := by
  have heq (x x' : Parser α) : (do if ← atClose inBlock then x else x') = peek >>= fun next =>
      next.elim x fun t =>
        if t.kind == .eof || (inBlock && t.kind == .rightBrace) then x else x' := by
    rw [atClose, bind_assoc]
    congr 1
    funext next
    cases next <;> rfl
  have hmark (x x' : Parser α) {t : Token} (hend : t.kind = .eof) :
      (if t.kind == .eof || (inBlock && t.kind == .rightBrace) then x else x') = x := by
    simp [hend]
  rw [heq, heq]
  exact agree_peek (fun t hend => hmark x x' hend) (fun t hend => hmark y y' hend) ht
    fun t _ => ht.anyLeast.ite hf

end Endings

end Lox
