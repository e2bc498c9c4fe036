import Lox.Proofs.Ending.Statement
import Lox.Proofs.Grammar.Completeness.Declaration
import Lox.Proofs.Recovery.Statement
import Mathlib

/-! The faults of a program. Reading always comes to the end, and never goes back: of the faults that end
a declaration no two are at one token, but for those at the end. -/

namespace Lox

namespace Parser

lemma declarations_ne_failed (fuel : Nat) (inBlock : Bool) (c : Cursor) {e : ParseError} {d : Cursor} :
    outcome (declarations fuel inBlock) c ≠ (.error (.failed e), d) := by
  induction fuel generalizing c with
  | zero => simp [declarations]
  | succ fuel ih =>
    have hrest (first : Option Stmt) (c : Cursor) : outcome (do
        return first.toList ++ (← declarations fuel inBlock)) c ≠ (.error (.failed e), d) := by
      have hnever := ih c
      rw [outcome_bind]
      generalize outcome (declarations fuel inBlock) c = r at hnever ⊢
      obtain ⟨(e' | _) | body, c'⟩ := r
      · exact hnever
      · simp
      · simp
    rw [declarations, outcome_bind, outcome_atClose]
    dsimp only
    split
    · simp
    · rw [outcome_bind, outcome_recovering (statementsPass fuel).declaration]
      rcases outcome (declaration fuel) c with ⟨(e' | _) | declared, c'⟩
      · exact hrest none _
      · simp
      · exact hrest (some declared) c'

lemma ends_of_alongside {E : Endings} {front : List Token} {used : Nat} {α : Type}
    {r r' : Except Stop α × Cursor} (h : E.Alongside front used r r') :
    (∃ a d, r = (.ok a, d)) ∨ ∃ e d, r = (.error (.failed e), d) := by
  cases h with
  | ok a => exact .inl ⟨a, _, rfl⟩
  | failed cause rule => exact .inr ⟨_, _, rfl⟩

/-- The tokens up to the first end mark, and a reader alone, taken for two. -/
lemma abreast_startOf (tokens : List Token) (n : Nat) :
    ∃ (E : Endings) (front : List Token), front.length ≤ tokens.length ∧
      E.Abreast front (startOf tokens n) (startOf tokens n) := by
  have hends : closes false (tokens.dropWhile (·.kind != .eof)) = true := closes_dropWhile false tokens
  have htokens := (List.takeWhile_append_dropWhile (p := (·.kind != .eof)) (l := tokens)).symm
  refine ⟨⟨_, _, hends, hends⟩, _, (List.takeWhile_prefix _).length_le, fun t ht => ?_, htokens,
    htokens, rfl, .nil⟩
  simpa using List.mem_takeWhile_imp ht

/-- With so much fuel all the declarations are read. -/
lemma declarations_end (tokens : List Token) (n : Nat) (inBlock : Bool) {fuel : Nat}
    (hfuel : ample tokens.length ≤ fuel) :
    ∃ body d, outcome (declarations fuel inBlock) (startOf tokens n) = (.ok body, d) ∧
      (startOf tokens n).Advances d ∧ closes inBlock d.rest = true := by
  obtain ⟨E, front, hfront, hstart⟩ := abreast_startOf tokens n
  have hread := ends_of_alongside ((E.statements fuel fuel).declarations inBlock
    front.length (by rw [ample] at hfuel; omega) front _ _ (Nat.zero_le _) (Nat.le_refl _) hstart)
  rcases hread with ⟨body, d, hread⟩ | ⟨e, d, hread⟩
  · have hadvances := (statementsPass fuel).declarations inBlock (startOf tokens n)
      (absurd · Bool.false_ne_true)
    rw [hread] at hadvances
    cases hadvances with
    | ok _ hadvances _ => exact ⟨body, d, hread, hadvances, closes_of_declarations hread⟩
  · exact absurd hread (declarations_ne_failed fuel inBlock _)

/-- Where a declaration has a fatal fault, reading goes on behind the offending token, and at it only if
that is the end. -/
lemma resumes_after {declaration : Parser Stmt} (h : Passes false 1 declaration) {c d : Cursor}
    {e : ParseError} (hfailed : outcome declaration c = (.error (.failed e), d)) :
    e.isFatal = true ∧ d.rest <:+ c.rest ∧ e.FoundAt d.rest ∧
      outcome (recovering declaration) c = (.ok none, d.resume e) ∧
      (e.found ≠ none → resumption d.rest <:+ d.rest.tail) ∧
      (e.found = none → resumption d.rest = d.rest) := by
  have hprogress := h c nofun
  have hrecovering := outcome_recovering h c
  rw [hfailed] at hprogress hrecovering
  generalize hr : (Except.error (Stop.failed e), d) = r at hprogress
  cases hprogress with
  | ok | outOfFuel => simp at hr
  | @failed cause rule c' hfatal hadvances =>
    obtain ⟨hfault, rfl⟩ : e = c'.fault cause rule ∧ d = c' := by simpa using hr
    subst hfault
    have hfound := d.foundAt_fault cause rule
    refine ⟨by rw [ParseError.isFatal, d.cause_fault, hfatal], hadvances.suffix, hfound,
      hrecovering, fun hsome => resumption_suffix_tail ?_, fun hnone => resumption_atEnd ?_⟩
    · exact Bool.eq_false_iff.mpr fun hend => hsome (hfound.found_eq_none_iff.mpr hend)
    · exact hfound.found_eq_none_iff.mp hnone

end Parser

namespace Program

/-- The faults of tokens that make up no program, in the order in which they are met. -/
def faults (tokens : List Token) (n : Nat) : List ParseError :=
  match (Program.parse tokens n).1 with
  | .ok _ => []
  | .error errors => errors

lemma fatal_faults (tokens : List Token) (n : Nat) :
    ∃ d, (faults tokens n).filter ParseError.isFatal = d.fatal.reverse ∧
      (Parser.startOf tokens n).Advances d := by
  obtain ⟨body, d, hread, hadvances, -⟩ :=
    Parser.declarations_end tokens n false (Nat.le_refl (Parser.ample tokens.length))
  have hfaults : faults tokens n = d.errors.reverse := by
    rw [faults, Parser.parse_eq_verdict, hread, Parser.verdict]
    rcases d with ⟨rest, nextId, _ | _⟩ <;> rfl
  exact ⟨d, by rw [hfaults, Cursor.fatal, List.filter_reverse], hadvances⟩

/-- The end is the first end mark, or behind all tokens. -/
lemma offending_eq_iff {tokens offending : List Token} {n : Nat} {d : Cursor} {e : ParseError}
    (h : (Parser.startOf tokens n).Advances d) (hfound : e.FoundAt offending)
    (hplace : if e.found = none then offending = d.rest else d.rest.length < offending.length) :
    e.found = none ↔ offending = tokens.dropWhile (·.kind != .eof) := by
  constructor
  · intro hnone
    obtain ⟨ts, hts, hrest⟩ := h.passed
    have hend := hfound.found_eq_none_iff.mp hnone
    rw [if_pos hnone] at hplace
    have htokens : tokens = ts ++ offending := by rw [hplace, ← hrest]; rfl
    rw [htokens, List.dropWhile_append_of_pos (by simpa [Unended] using hts)]
    clear htokens hplace
    cases offending with
    | nil => rfl
    | cons t rest =>
      have ht : t.kind = .eof := by simpa [Parser.closes] using hend
      exact (List.dropWhile_cons_of_neg (by simp [ht])).symm
  · rintro rfl
    exact hfound.found_eq_none_iff.mpr (Parser.closes_dropWhile false tokens)

/-- Of the fatal faults each is at a token further on than the one before, or both are at the end,
which is the first end mark or behind all tokens. Where a declaration has one, reading goes on behind
the offending token, and at it only if that is the end. -/
theorem faults_advance (tokens : List Token) (n : Nat) :
    ((faults tokens n).filter ParseError.isFatal).Pairwise ParseError.Precedes ∧
      (∀ e ∈ (faults tokens n).filter ParseError.isFatal, ∃ offending, offending <:+ tokens ∧
        e.FoundAt offending ∧ (e.found = none ↔ offending = tokens.dropWhile (·.kind != .eof))) ∧
      ∀ fuel c e d, outcome (Parser.declaration fuel) c = (.error (.failed e), d) →
        e.isFatal = true ∧ d.rest <:+ c.rest ∧ e.FoundAt d.rest ∧
          outcome (Parser.recovering (Parser.declaration fuel)) c = (.ok none, d.resume e) ∧
          (e.found ≠ none → resumption d.rest <:+ d.rest.tail) ∧
          (e.found = none → resumption d.rest = d.rest) := by
  obtain ⟨d, hfatal, hadvances⟩ := fatal_faults tokens n
  obtain ⟨new, hmet, hbetween, hpairwise⟩ := hadvances.met
  obtain rfl : d.fatal = new := hmet.trans (List.append_nil new)
  rw [hfatal]
  refine ⟨List.pairwise_reverse.mpr hpairwise, fun e he => ?_, fun fuel c e d hfailed => ?_⟩
  · obtain ⟨offending, hsuffix, hfound, hplace⟩ := hbetween e (List.mem_reverse.mp he)
    exact ⟨offending, hsuffix, hfound, offending_eq_iff hadvances hfound hplace⟩
  · exact Parser.resumes_after (Parser.statementsPass fuel).declaration hfailed

/-- Two print statements lack their values, the second one at the end; after the first reading goes on
behind its semicolon. -/
theorem faults_advance_past_semicolon :
    let ts : List Token := [⟨.kwPrint, "print", none, 1⟩, ⟨.semicolon, ";", none, 1⟩,
      ⟨.kwPrint, "print", none, 2⟩, ⟨.eof, "", none, 2⟩]
    let lacks (line : Nat) (found : Option String) (remaining : Nat) : ParseError :=
      ⟨.expectedExpression, line, found, .primary, remaining⟩
    let stopped : Cursor := ⟨ts.drop 1, 0, []⟩
    outcome (Parser.declaration 16) (Parser.startOf ts 0) =
        (.error (.failed (lacks 1 (some ";") 3)), stopped) ∧
      faults ts 0 = [lacks 1 (some ";") 3, lacks 2 none 1] ∧
      (lacks 1 (some ";") 3).Precedes (lacks 2 none 1) ∧
      resumption stopped.rest <:+ ts.drop 2 := by
  intro ts lacks stopped
  have hdeclaration : outcome (Parser.declaration 16) (Parser.startOf ts 0) =
      (.error (.failed (lacks 1 (some ";") 3)), stopped) := by cbv
  have hfaults : faults ts 0 = [lacks 1 (some ";") 3, lacks 2 none 1] := by cbv
  have hfatal : (faults ts 0).filter ParseError.isFatal = faults ts 0 := by rw [hfaults]; rfl
  obtain ⟨hpairwise, -, hresumes⟩ := faults_advance ts 0
  rw [hfatal, hfaults] at hpairwise
  obtain ⟨-, -, -, -, hbehind, -⟩ := hresumes _ _ _ _ hdeclaration
  exact ⟨hdeclaration, hfaults, List.pairwise_pair.mp hpairwise, hbehind (Option.some_ne_none _)⟩

end Program

end Lox
