import Lox.Proofs.Grammar.Completeness.Declaration
import Lox.Proofs.Identity.Parsing

/-! The parser of programs accepts what the grammar derives, and the tree is the derived one. -/

namespace Lox

/-- A program without the identities of its references. -/
def Program.withoutIds (program : Program) : Program :=
  Stmt.renameAll (fun _ => 0) program

lemma Program.withoutIds_renameAll (ρ : Nat → Nat) (program : Program) :
    withoutIds (Stmt.renameAll ρ program) = withoutIds program :=
  Stmt.renameAll_renameAll ρ (fun _ => 0) program

lemma Program.parse_from {tokens : List Token} {k l : Nat} {other : Program}
    (h : Program.parse tokens k = (.ok other, l)) (n : Nat) :
    ∃ program m, Program.parse tokens n = (.ok program, m) ∧
      withoutIds program = withoutIds other := by
  have hk := parse_shift tokens 0 k
  have hn := parse_shift tokens 0 n
  rw [Nat.zero_add] at hk hn
  rcases hparse : Program.parse tokens 0 with ⟨errors | program, m⟩
  · rw [hk, hparse] at h
    simp [Except.map] at h
  · rw [hk, hparse] at h
    obtain ⟨rfl, -⟩ : Stmt.renameAll (· + k) program = other ∧ m + k = l := by
      simpa [Except.map] using h
    refine ⟨Stmt.renameAll (· + n) program, m + n, by rw [hn, hparse]; rfl, ?_⟩
    rw [withoutIds_renameAll, withoutIds_renameAll]

/-- Tokens are read as a program, with identities from `n` on, exactly if the grammar derives it from
the tokens in front of the first end mark. If it derives a program from them, with any identities,
they are read, and as the same program up to the identities. -/
theorem parse_accepts_grammar (tokens : List Token) (n : Nat) :
    (∀ program m, Program.parse tokens n = (.ok program, m) ↔
      Derives n (tokens.takeWhile (·.kind != .eof)) (.declarations program) m) ∧
    ∀ other k l, Derives k (tokens.takeWhile (·.kind != .eof)) (.declarations other) l →
      ∃ program m, Program.parse tokens n = (.ok program, m) ∧
        Program.withoutIds program = Program.withoutIds other :=
  ⟨fun _ _ => ⟨Parser.parse_sound, Parser.parse_complete⟩,
    fun _ _ _ h => Program.parse_from (Parser.parse_complete h) n⟩

end Lox
