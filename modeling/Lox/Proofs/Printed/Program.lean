import Lox.Proofs.Printed.Statement
import Mathlib.Data.Set.Function

/-! What is written of a program tells what program it is, up to lines and identities. -/

namespace Lox

namespace Reader

variable {number : List Char → Float}

/-- Different finite numbers are written differently, so what is written of one can be read. -/
lemma exists_readsNumbers : ∃ number, ReadsNumbers number := by
  let written (x : Float) : List Char := (Decimal.text Literal.numberSpelling x).toList
  have hinjective : Set.InjOn written {x | x.isFinite = true} := fun x hx y hy heq =>
    Decimal.text_injective hx hy (String.toList_inj.mp heq)
  have : Nonempty Float := ⟨0⟩
  exact ⟨Function.invFunOn written {x | x.isFinite = true}, fun x hx =>
    hinjective.leftInvOn_invFunOn hx⟩

lemma program_exact (p : Program) (h : ∀ stated ∈ p, Restores number stated) {fuel : Nat}
    (hfuel : p.written.toList.length + 1 ≤ fuel) :
    program number fuel p.written.toList = p.bare := by
  obtain ⟨fuel, rfl⟩ : ∃ k, fuel = k + 1 := Nat.exists_eq_succ_of_ne_zero (by omega)
  induction p generalizing fuel with
  | nil => rfl
  | cons stated rest ih =>
    obtain ⟨hstated, hrest⟩ := List.forall_mem_cons.mp h
    have hwritten : (Program.written (stated :: rest)).toList =
        stated.written.toList ++ '\n' :: (Program.written rest).toList := by
      simp [Program.written, String.toList_join]
    rw [hwritten, List.length_append, List.length_cons] at hfuel
    obtain ⟨fuel, rfl⟩ : ∃ k, fuel = k + 1 := Nat.exists_eq_succ_of_ne_zero (by omega)
    have hread := hstated (fuel + 1) ('\n' :: (Program.written rest).toList) (by omega)
      fun _ hstart => by simp [elseText] at hstart
    rw [hwritten, program, hread]
    · simp only [List.tail_cons, ih hrest fuel (by omega)]
      rfl
    · exact List.append_ne_nil_of_right_ne_nil _ (List.cons_ne_nil _ _)

lemma program_of_parse (hnumber : ReadsNumbers number) {source : String} {tokens : List Token}
    {n m : Nat} {p : Program} (hscan : Token.scan source = .ok tokens)
    (hparse : Program.parse tokens n = (.ok p, m)) (hfinite : p.Finite) :
    program number (p.written.toList.length + 1) p.written.toList = p.bare := by
  have hlegible := Program.legible_of_parse hscan hparse hfinite
  have hnearest : Stmt.NearestAll p := (Parser.parse_sound hparse).nearest
  exact program_exact p (restoresAll_of_legible hnumber p hlegible hnearest) (Nat.le_refl _)

end Reader

/-- Programs with finite number literals that are written alike are the same, up to lines and identities. -/
theorem Program.bare_eq_of_written_eq {source source' : String} {tokens tokens' : List Token}
    {n n' m m' : Nat} {program program' : Program}
    (hscan : Token.scan source = .ok tokens) (hscan' : Token.scan source' = .ok tokens')
    (hparse : Program.parse tokens n = (.ok program, m))
    (hparse' : Program.parse tokens' n' = (.ok program', m'))
    (hfinite : program.Finite) (hfinite' : program'.Finite)
    (hwritten : program.written = program'.written) : program.bare = program'.bare := by
  obtain ⟨number, hnumber⟩ := Reader.exists_readsNumbers
  have hread := Reader.program_of_parse hnumber hscan hparse hfinite
  have hread' := Reader.program_of_parse hnumber hscan' hparse' hfinite'
  rw [hwritten] at hread
  exact hread.symm.trans hread'

/-- A choice between branches on one line and on three. -/
theorem Program.bare_eq_of_choice_written :
    let half : Float := Decimal.nearest ['0'] ['5']
    let tokens (line line' line'' : Nat) : List Token :=
      [⟨.kwIf, "if", none, line⟩, ⟨.leftParen, "(", none, line⟩, ⟨.identifier, "a", none, line⟩,
        ⟨.rightParen, ")", none, line⟩, ⟨.kwPrint, "print", none, line'⟩,
        ⟨.number, "0.5", some (.number half), line'⟩, ⟨.semicolon, ";", none, line'⟩,
        ⟨.kwElse, "else", none, line''⟩, ⟨.identifier, "b", none, line''⟩,
        ⟨.semicolon, ";", none, line''⟩, ⟨.eof, "", none, line''⟩]
    let choice (line line' line'' n : Nat) : Program :=
      [.ifElse (.read ⟨n, ⟨"a", line⟩⟩) (.print line' (.literal (.number half)))
        (some (.expression (.read ⟨n + 1, ⟨"b", line''⟩⟩)))]
    Token.scan "if (a) print 0.5; else b;" = .ok (tokens 1 1 1) ∧
      Token.scan "if (a)\nprint 0.5;\nelse b;" = .ok (tokens 1 2 3) ∧
      Program.parse (tokens 1 1 1) 0 = (.ok (choice 1 1 1 0), 2) ∧
      Program.parse (tokens 1 2 3) 7 = (.ok (choice 1 2 3 7), 9) ∧
      (choice 1 1 1 0).Finite ∧ (choice 1 2 3 7).Finite ∧
      (choice 1 1 1 0).written = (choice 1 2 3 7).written ∧
      (choice 1 1 1 0).bare = (choice 1 2 3 7).bare := by
  intro half tokens choice
  have hfinite (line line' line'' n : Nat) : (choice line line' line'' n).Finite := by
    intro x hx
    obtain rfl : x = half := by
      simpa [choice, Stmt.wordsAll, Stmt.words, Expr.words, Literal.words] using hx
    decide +kernel
  have hscan : Token.scan "if (a) print 0.5; else b;" = .ok (tokens 1 1 1) := rfl
  have hscan' : Token.scan "if (a)\nprint 0.5;\nelse b;" = .ok (tokens 1 2 3) := rfl
  have hparse : Program.parse (tokens 1 1 1) 0 = (.ok (choice 1 1 1 0), 2) := by rfl
  have hparse' : Program.parse (tokens 1 2 3) 7 = (.ok (choice 1 2 3 7), 9) := by rfl
  have hwritten : (choice 1 1 1 0).written = (choice 1 2 3 7).written := by rfl
  exact ⟨hscan, hscan', hparse, hparse', hfinite _ _ _ _, hfinite _ _ _ _, hwritten,
    bare_eq_of_written_eq hscan hscan' hparse hparse' (hfinite _ _ _ _) (hfinite _ _ _ _) hwritten⟩

end Lox
