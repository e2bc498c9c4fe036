import Lox.Proofs.Ending.Statement
import Mathlib

/-! A program is read from what is in front of the first end mark. -/

namespace Lox

namespace ParseError

/-- What a fault says: what is wrong, on which line, at which lexeme or at the end, and in which rule. -/
def told (e : ParseError) : Cause × Nat × Option String × Rule :=
  (e.cause, e.line, e.found, e.rule)

/-- The fault, if it is at the end, on no line. -/
def unlined (e : ParseError) : ParseError :=
  if e.found = none then { e with line := 0 } else e

variable {ending ending' : Nat} {e e' : ParseError}

lemma Alike.told (h : Alike ending ending e e') : e.told = e'.told := by
  have hline : e.line = e'.line := by
    by_cases hfound : e.found = none
    · exact (h.atEnd hfound).1.trans (h.atEnd hfound).2.symm
    · exact h.line hfound
  rw [ParseError.told, ParseError.told, h.cause, hline, h.found, h.rule]

lemma Alike.told_unlined (h : Alike 0 ending e e') : e.told = e'.unlined.told := by
  rw [unlined]
  by_cases hfound : e'.found = none
  · rw [if_pos hfound, ParseError.told, ParseError.told, h.cause, h.found, h.rule,
      (h.atEnd (h.found.trans hfound)).1]
  · rw [if_neg hfound, ParseError.told, ParseError.told, h.cause, h.found, h.rule,
      h.line (h.found ▸ hfound)]

end ParseError

namespace Endings

open Lox.Parser

variable {E : Endings} {front : List Token} {used : Nat}

/-- What is made of tokens by two readers: the same tree, or the same faults. -/
inductive Matches (E : Endings) :
    Except (List ParseError) Program → Except (List ParseError) Program → Prop
  | ok (program : Program) : Matches E (.ok program) (.ok program)
  | error {errors errors' : List ParseError} (alike : List.Forall₂ E.Alike errors errors') :
      Matches E (.error errors) (.error errors')

lemma matches_verdict {r r' : Except Stop (List Stmt) × Cursor} (h : E.Alongside front used r r') :
    E.Matches (verdict r).1 (verdict r').1 ∧ (verdict r).2 = (verdict r').2 := by
  cases h with
  | @ok program _ c d _ _ habreast =>
    obtain ⟨-, -, -, hid, herrors⟩ := habreast
    rw [verdict, verdict]
    dsimp only
    generalize c.errors = errors, d.errors = errors' at herrors ⊢
    cases herrors with
    | nil => exact ⟨.ok program, hid⟩
    | cons he hrest => exact ⟨.error (List.rel_reverse (.cons he hrest)), hid⟩
  | failed cause rule _ habreast =>
    exact ⟨.error (List.rel_reverse habreast.errors), habreast.nextId⟩

lemma matches_parse (E : Endings) {us : List Token} (h : Unended us) (n : Nat) :
    E.Matches (Program.parse (us ++ E.first) n).1 (Program.parse (us ++ E.second) n).1 ∧
      (Program.parse (us ++ E.first) n).2 = (Program.parse (us ++ E.second) n).2 := by
  have hstart : E.Abreast us (startOf (us ++ E.first) n) (startOf (us ++ E.second) n) :=
    ⟨h, rfl, rfl, rfl, .nil⟩
  have hfuel : 16 * us.length + 12 ≤
      min (ample (us ++ E.first).length) (ample (us ++ E.second).length) := by
    simp only [ample, List.length_append]
    omega
  rw [parse_eq_verdict, parse_eq_verdict]
  exact matches_verdict ((statements E _ _).declarations false us.length hfuel us _ _ (Nat.zero_le _)
    (Nat.le_refl _) hstart)

variable {result result' : Except (List ParseError) Program}

lemma Matches.mapError (h : E.Matches result result') {β : Type} {f g : ParseError → β}
    (hfg : ∀ e e', E.Alike e e' → f e = g e') :
    result.mapError (List.map f) = result'.mapError (List.map g) := by
  cases h with
  | ok program => rfl
  | error halike =>
    have hmap := List.rel_map (fun e e' => hfg e e') halike
    rw [List.forall₂_eq_eq_eq] at hmap
    exact congrArg Except.error hmap

end Endings

/-- The parser sees only what is in front of the first end mark. With other tokens behind the mark the
same program comes of it, or the same faults in the same order, and the same identities are taken;
those at the end are on the line of the mark. Without any mark it is the same again, but the faults at
the end are on line 0. -/
theorem Program.parse_ended {us : List Token} (h : Unended us) {mark : Token} (hmark : mark.kind = .eof)
    (junk : List Token) (n : Nat) :
    let ended := parse (us ++ [mark]) n
    let followed := parse (us ++ [mark] ++ junk) n
    let unended := parse us n
    followed.1.mapError (List.map ParseError.told) = ended.1.mapError (List.map ParseError.told) ∧
      followed.2 = ended.2 ∧
      unended.1.mapError (List.map ParseError.told) =
        ended.1.mapError (List.map (ParseError.told ∘ ParseError.unlined)) ∧
      unended.2 = ended.2 ∧
      ∀ errors, ended.1 = .error errors → ∀ e ∈ errors, e.found = none → e.line = mark.line := by
  have hcloses (rest : List Token) : Parser.closes false (mark :: rest) = true := by
    simp [Parser.closes, hmark]
  have hfollowed := Endings.matches_parse ⟨mark :: junk, [mark], hcloses junk, hcloses []⟩ h n
  have hunended := Endings.matches_parse ⟨[], [mark], rfl, hcloses []⟩ h n
  simp only [List.append_nil] at hunended
  rw [List.append_assoc, List.singleton_append]
  refine ⟨hfollowed.1.mapError fun e e' halike => halike.told, hfollowed.2,
    hunended.1.mapError fun e e' halike => halike.told_unlined, hunended.2, ?_⟩
  rintro errors herrors e he hfound
  have hended := (Endings.matches_parse ⟨[mark], [mark], hcloses [], hcloses []⟩ h n).1
  rw [herrors] at hended
  cases hended with
  | error halike => exact ((List.forall₂_same.mp halike e he).atEnd hfound).1

/-- A print statement lacks its semicolon, which stands behind the end mark only. -/
theorem Program.parse_ended_of_lacking_semicolon :
    let us : List Token := [⟨.kwPrint, "print", none, 1⟩, ⟨.kwNil, "nil", none, 1⟩]
    let mark : Token := ⟨.eof, "", none, 2⟩
    let lacks (line : Nat) : Except (List _) Program :=
      .error [(.expected "';' after value", line, none, .printStatement)]
    Unended us ∧ mark.kind = .eof ∧
      (parse (us ++ [mark] ++ [⟨.semicolon, ";", none, 3⟩]) 4).1.mapError (List.map ParseError.told) =
        lacks 2 ∧
      (parse us 4).1.mapError (List.map ParseError.told) = lacks 0 := by
  intro us mark lacks
  have hus : Unended us := by simp [us]
  have hended : (parse (us ++ [mark]) 4).1 =
      .error [⟨.expected "';' after value", 2, none, .printStatement, 1⟩] := by cbv
  obtain ⟨hfollowed, -, hunended, -⟩ := @parse_ended us hus mark rfl [⟨.semicolon, ";", none, 3⟩] 4
  rw [hended] at hfollowed hunended
  exact ⟨hus, rfl, hfollowed, hunended⟩

end Lox
