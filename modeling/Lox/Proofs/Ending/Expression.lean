import Lox.Proofs.Ending.Abreast

/-! The parsers of expressions look no further than the end, and pass one token at least. -/

namespace Lox.Endings

open Lox.Parser

variable {E : Endings} {size fuel fuel' : Nat} {x y : Parser Expr}

lemma agree_assignTo {e e' : ParseError} (h : E.Alike e e') (target value : Expr) :
    E.Agree 0 size 0 (assignTo e target value) (assignTo e' target value) := by
  cases target with
  | read | get => exact agree_pure _
  | literal | grouping | unary | binary | logical | assign | call | set | this | super =>
    exact (agree_report h).first fun _ _ _ => agree_pure _

lemma agree_primary (h : ∀ left, left + 1 ≤ size → E.Agree 0 left 1 x y) :
    E.Agree 0 size 1 (primary x) (primary y) := by
  refine agree_peek (fun t hend => by simp only [hend]) (fun t hend => by simp only [hend])
    (agree_fail _ _) fun t _ => ?_
  dsimp only
  split
  case h_1 | h_2 | h_3 | h_4 | h_5 => exact agree_skip.first fun _ _ _ => agree_pure _
  case h_6 | h_7 =>
    exact agree_skip.first fun _ _ _ => (agree_newReference _).bind fun _ _ _ => agree_pure _
  case h_8 =>
    exact agree_skip.first fun _ _ _ => ((agree_expect (by decide) _ _).bind fun _ _ _ =>
      (agree_expectName _ _).bind fun _ _ _ => (agree_newReference _).bind fun _ _ _ => agree_pure _)
  case h_9 =>
    exact agree_skip.first fun _ left hleft => (h left hleft).bind fun _ _ _ =>
      (agree_expect (by decide) _ _).bind fun _ _ _ => agree_pure _
  case h_10 => exact agree_fail _ _

/-- With so much fuel each parser of expressions has enough of it for some number of tokens up to the
end, and both readers come to the same. A token is worth sixteen units, which is more than the parsers nest
before one is passed. -/
structure Expressions (E : Endings) (fuel fuel' : Nat) : Prop where
  expression : ∀ size, 16 * size + 9 ≤ min fuel fuel' →
    E.Agree 0 size 1 (Parser.expression fuel) (Parser.expression fuel')
  operators : ∀ tier size, 16 * size + 8 ≤ min fuel fuel' + tier.tightness →
    E.Agree 0 size 1 (Parser.operators fuel tier) (Parser.operators fuel' tier)
  operatorsAfter : ∀ tier left size, 16 * size + 1 ≤ min fuel fuel' →
    E.Agree 0 size 0 (Parser.operatorsAfter fuel tier left) (Parser.operatorsAfter fuel' tier left)
  unary : ∀ size, 16 * size + 2 ≤ min fuel fuel' →
    E.Agree 0 size 1 (Parser.unary fuel) (Parser.unary fuel')
  callsAfter : ∀ callee size, 16 * size + 1 ≤ min fuel fuel' →
    E.Agree 0 size 0 (Parser.callsAfter fuel callee) (Parser.callsAfter fuel' callee)
  arguments : ∀ count size, 16 * size + 10 ≤ min fuel fuel' →
    E.Agree 0 size 1 (Parser.arguments fuel count) (Parser.arguments fuel' count)

lemma Expressions.operand (h : E.Expressions fuel fuel') (tier : Tier) (size : Nat)
    (hsize : 16 * size + 7 ≤ min fuel fuel' + tier.tightness) :
    E.Agree 0 size 1 (Parser.operand (Parser.operators fuel) (Parser.unary fuel) tier)
      (Parser.operand (Parser.operators fuel') (Parser.unary fuel') tier) := by
  cases tier with
  | factor => exact h.unary size (by simpa [Tier.tightness] using hsize)
  | disjunction | conjunction | equality | comparison | term =>
    exact h.operators _ size (by simp only [Tier.tightness] at hsize ⊢; omega)

lemma agree_expression (h : E.Expressions fuel fuel') (hsize : 16 * size + 8 ≤ min fuel fuel') :
    E.Agree 0 size 1 (Parser.expression (fuel + 1)) (Parser.expression (fuel' + 1)) := by
  refine (h.operators _ size (by omega)).first fun target left hleft => agree_check (by decide) ?_
    (agree_pure _)
  exact agree_faultHere fun _ _ he => agree_skip.bind fun _ left' hleft' =>
    (h.expression left' (by omega)).bind fun value _ _ => agree_assignTo he target value

lemma agree_operators (h : E.Expressions fuel fuel') (tier : Tier)
    (hsize : 16 * size + 7 ≤ min fuel fuel' + tier.tightness) :
    E.Agree 0 size 1 (Parser.operators (fuel + 1) tier) (Parser.operators (fuel' + 1) tier) :=
  (h.operand tier size hsize).first fun left others hothers =>
    h.operatorsAfter tier left others (by have htier := tier.tightness_le; omega)

lemma agree_operatorsAfter (h : E.Expressions fuel fuel') (tier : Tier) (left : Expr)
    (hsize : 16 * size ≤ min fuel fuel') :
    E.Agree 0 size 0 (Parser.operatorsAfter (fuel + 1) tier left)
      (Parser.operatorsAfter (fuel' + 1) tier left) := by
  refine agree_peekOperator tier.connective? rfl (by cases tier <;> rfl) (agree_pure left) ?_
  rintro ⟨connective, line⟩
  exact agree_skip.bind fun _ others hothers => (h.operand tier others (by omega)).bind
    fun right behind hbehind => h.operatorsAfter tier _ behind (by omega)

lemma agree_unary (h : E.Expressions fuel fuel') (hsize : 16 * size + 1 ≤ min fuel fuel') :
    E.Agree 0 size 1 (Parser.unary (fuel + 1)) (Parser.unary (fuel' + 1)) := by
  refine agree_peekOperator UnaryOp.ofKind? rfl rfl ?_ fun (op, line) => ?_
  · exact (agree_primary fun left hleft => h.expression left (by omega)).first
      fun callee left hleft => h.callsAfter callee left (by omega)
  · exact agree_skip.first fun _ left hleft =>
      (h.unary left (by omega)).bind fun _ _ _ => agree_pure _

lemma agree_callsAfter (h : E.Expressions fuel fuel') (callee : Expr)
    (hsize : 16 * size ≤ min fuel fuel') :
    E.Agree 0 size 0 (Parser.callsAfter (fuel + 1) callee) (Parser.callsAfter (fuel' + 1) callee) := by
  refine agree_accept (by decide) (fun inside hinside => ?_)
    (agree_accept (by decide) (fun behind hbehind => ?_) (agree_pure callee))
  · exact agree_checkBind (by decide) (agree_pure []) (h.arguments 0 inside (by omega))
      fun given left hleft => (agree_expect (by decide) _ _).bind fun paren behind hbehind =>
        h.callsAfter _ behind (by omega)
  · exact (agree_expectName _ _).bind fun property left hleft => h.callsAfter _ left (by omega)

lemma agree_arguments (h : E.Expressions fuel fuel') (count : Nat)
    (hsize : 16 * size + 9 ≤ min fuel fuel') :
    E.Agree 0 size 1 (Parser.arguments (fuel + 1) count) (Parser.arguments (fuel' + 1) count) := by
  refine (agree_limit _ _ _).bind fun _ left hleft => (h.expression left (by omega)).first
    fun argument behind hbehind => agree_accept (by decide) (fun others hothers => ?_) (agree_pure _)
  exact ((h.arguments (count + 1) others (by omega)).uses (Nat.zero_le _)).first
    fun _ _ _ => agree_pure _

lemma expressions_of_no_fuel (hnone : min fuel fuel' = 0) : E.Expressions fuel fuel' := by
  constructor
  case operators =>
    intro tier size hsize
    have htier := tier.tightness_le
    omega
  all_goals intros; omega

lemma expressions (E : Endings) (fuel fuel' : Nat) : E.Expressions fuel fuel' := by
  -- The readers have fuels of their own, which go down together.
  induction fuel generalizing fuel' with
  | zero => exact expressions_of_no_fuel (Nat.zero_min _)
  | succ fuel ih =>
    cases fuel' with
    | zero => exact expressions_of_no_fuel (Nat.min_zero _)
    | succ fuel' =>
      have h := ih fuel'
      exact
        { expression := fun size hsize => agree_expression h (by omega)
          operators := fun tier size hsize => agree_operators h tier (by omega)
          operatorsAfter := fun tier left size hsize => agree_operatorsAfter h tier left (by omega)
          unary := fun size hsize => agree_unary h (by omega)
          callsAfter := fun callee size hsize => agree_callsAfter h callee (by omega)
          arguments := fun count size hsize => agree_arguments h count (by omega) }

end Lox.Endings
