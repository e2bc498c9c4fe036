import Lox.Proofs.Identity.Session

/-! Source texts without a fault that shows before they run. -/

namespace Lox

/-- What a source text without fault makes up, from an identity on: a program, the first identity not
taken by it, and where its names are bound. -/
def Program.ofSource? (n : Nat) (source : String) : Option (Program × Nat × List Distance) :=
  match Token.scan source with
  | .error _ => none
  | .ok tokens =>
    match Program.parse tokens n with
    | (.error _, _) => none
    | (.ok program, nextId) =>
      match Program.resolve program with
      | .error _ => none
      | .ok distances => some (program, nextId, distances)

variable {n nextId : Nat} {source : String} {program : Program} {distances : List Distance}

lemma Program.ofSource?_eq_some_iff :
    Program.ofSource? n source = some (program, nextId, distances) ↔
      ∃ tokens, Token.scan source = .ok tokens ∧
        Program.parse tokens n = (.ok program, nextId) ∧ Program.resolve program = .ok distances := by
  unfold Program.ofSource?
  cases Token.scan source with
  | error errors => simp
  | ok tokens =>
    rcases hparse : Program.parse tokens n with ⟨errors | parsed, next⟩
    · simp [hparse]
    · cases hresolve : Program.resolve parsed with
      | error violations => simp [hparse, hresolve]; grind
      | ok bound => simp [hparse, hresolve]; grind

namespace Program

variable (h : Program.ofSource? n source = some (program, nextId, distances))

include h

lemma resolve_of_source : Program.resolve program = .ok distances := by
  obtain ⟨tokens, -, -, hresolve⟩ := Program.ofSource?_eq_some_iff.mp h
  exact hresolve

lemma takes_of_source : Takes n (Stmt.idsAll program) nextId := by
  obtain ⟨tokens, -, hparse, -⟩ := Program.ofSource?_eq_some_iff.mp h
  exact (Parser.parse_sound hparse).takes

lemma proper_of_source : Stmt.ProperAll program := by
  obtain ⟨tokens, hscan, hparse, -⟩ := Program.ofSource?_eq_some_iff.mp h
  exact (Parser.parse_sound hparse).proper fun t ht =>
    Token.wellSpelt_of_scan hscan ((List.takeWhile_sublist _).subset ht)

end Program

lemma Session.run_of_source {session : Session} (fuel : Nat)
    (h : Program.ofSource? session.nextId source = some (program, nextId, distances)) :
    session.run fuel source = runBound fuel { session with nextId } program distances := by
  obtain ⟨tokens, hscan, hparse, hresolve⟩ := Program.ofSource?_eq_some_iff.mp h
  simp only [run, hscan, runTokens, hparse, hresolve]

/-- A text with a fault leaves the session as it was but for the identities. -/
lemma Session.run_cases (fuel : Nat) (session : Session) (source : String) :
    (∃ n, session.nextId ≤ n ∧ (session.run fuel source).2 = { session with nextId := n }) ∨
      ∃ program n distances,
        Program.ofSource? session.nextId source = some (program, n, distances) := by
  unfold run runTokens
  cases hscan : Token.scan source with
  | error errors => exact .inl ⟨session.nextId, Nat.le_refl _, rfl⟩
  | ok tokens =>
    have hle : session.nextId ≤ (Program.parse tokens session.nextId).2 := by
      rw [parse_at]
      exact Nat.le_add_left ..
    rcases hparse : Program.parse tokens session.nextId with ⟨errors | program, n⟩ <;>
      rw [hparse] at hle
    · exact .inl ⟨n, hle, by simp only [hparse]⟩
    · cases hresolve : Program.resolve program with
      | error violations => exact .inl ⟨n, hle, by simp only [hparse, hresolve]⟩
      | ok distances =>
        exact .inr ⟨program, n, distances,
          Program.ofSource?_eq_some_iff.mpr ⟨tokens, hscan, hparse, hresolve⟩⟩

end Lox
