import Lox.Proofs.Recovery.Passes

/-! The parsers of expressions pass one token at least, and fail at a token that they have come to. -/

namespace Lox.Parser

variable {fuel : Nat} {expression : Parser Expr}

lemma passes_assignTo {e : ParseError} (h : e.isFatal = false) (target value : Expr) :
    Passes false 0 (assignTo e target value) := by
  cases target with
  | read | get => exact passes_pure _
  | literal | grouping | unary | binary | logical | assign | call | set | this | super =>
    exact (passes_report h).first fun _ => passes_pure _

lemma passes_primary (h : Passes false 1 expression) : Passes false 1 (primary expression) := by
  refine passes_peek (fun t hend => by simp only [hend]) (passes_fail rfl _) fun t _ => ?_
  dsimp only
  split
  case h_1 | h_2 | h_3 | h_4 | h_5 => exact passes_skip.first fun _ => passes_pure _
  case h_6 | h_7 =>
    exact passes_skip.first fun _ => (passes_newReference _).first fun _ => passes_pure _
  case h_8 =>
    exact passes_skip.first fun _ => (passes_expect (by decide) _ _).bind fun _ =>
      (passes_expectName _ _).bind fun _ => (passes_newReference _).first fun _ => passes_pure _
  case h_9 =>
    exact passes_skip.first fun _ => h.bind fun _ => (passes_expect (by decide) _ _).bind
      fun _ => passes_pure _
  case h_10 => exact passes_fail rfl _

/-- What the parsers of expressions pass, with so much fuel. -/
structure ExpressionsPass (fuel : Nat) : Prop where
  expression : Passes false 1 (Parser.expression fuel)
  operators : ∀ tier, Passes false 1 (Parser.operators fuel tier)
  operatorsAfter : ∀ tier left, Passes false 0 (Parser.operatorsAfter fuel tier left)
  unary : Passes false 1 (Parser.unary fuel)
  callsAfter : ∀ callee, Passes false 0 (Parser.callsAfter fuel callee)
  arguments : ∀ count, Passes false 1 (Parser.arguments fuel count)

lemma ExpressionsPass.operand (h : ExpressionsPass fuel) (tier : Tier) :
    Passes false 1 (Parser.operand (Parser.operators fuel) (Parser.unary fuel) tier) := by
  cases tier with
  | factor => exact h.unary
  | disjunction | conjunction | equality | comparison | term => exact h.operators _

lemma passes_expression (h : ExpressionsPass fuel) :
    Passes false 1 (Parser.expression (fuel + 1)) := by
  refine (h.operators _).first fun target => passes_check (by decide) ?_ (passes_pure _)
  exact passes_faultHere fun e he => (passes_skip.bind fun _ => h.expression.bind fun value =>
    passes_assignTo (by rw [ParseError.isFatal, he]; rfl) target value)

lemma passes_operators (h : ExpressionsPass fuel) (tier : Tier) :
    Passes false 1 (operators (fuel + 1) tier) :=
  (h.operand tier).first fun left => h.operatorsAfter tier left

lemma passes_operatorsAfter (h : ExpressionsPass fuel) (tier : Tier) (left : Expr) :
    Passes false 0 (operatorsAfter (fuel + 1) tier left) := by
  refine passes_peekOperator tier.connective? rfl (by cases tier <;> rfl) (passes_pure left) ?_
  rintro ⟨connective, line⟩
  exact passes_skip.bind fun _ => (h.operand tier).bind fun right => h.operatorsAfter tier _

lemma passes_unary (h : ExpressionsPass fuel) : Passes false 1 (unary (fuel + 1)) := by
  refine passes_peekOperator UnaryOp.ofKind? rfl rfl ?_ fun (op, line) => ?_
  · exact (passes_primary h.expression).first fun callee => h.callsAfter callee
  · exact passes_skip.first fun _ => (h.unary.uses (Nat.zero_le _)).first fun _ => passes_pure _

lemma passes_callsAfter (h : ExpressionsPass fuel) (callee : Expr) :
    Passes false 0 (callsAfter (fuel + 1) callee) := by
  refine passes_accept (by decide) ?_ (passes_accept (by decide) ?_ (passes_pure callee))
  · have hrest (given : List Expr) : Passes false 0 (do
        let paren ← expect .rightParen "')' after arguments" .call
        callsAfter fuel (.call callee given paren.line)) :=
      (passes_expect (by decide) _ _).bind fun paren => h.callsAfter _
    exact passes_check (by decide) ((passes_pure []).bind hrest) ((h.arguments 0).bind hrest)
  · exact (passes_expectName _ _).bind fun property => h.callsAfter _

lemma passes_arguments (h : ExpressionsPass fuel) (count : Nat) :
    Passes false 1 (arguments (fuel + 1) count) := by
  refine (passes_limit _ _ _).bind fun _ => h.expression.first fun argument =>
    passes_accept (by decide) ?_ (passes_pure _)
  exact ((h.arguments (count + 1)).uses (Nat.zero_le _)).first fun _ => passes_pure _

lemma expressionsPass (fuel : Nat) : ExpressionsPass fuel := by
  induction fuel with
  | zero => constructor <;> intros <;> exact passes_outOfFuel
  | succ fuel ih =>
    exact
      { expression := passes_expression ih
        operators := passes_operators ih
        operatorsAfter := passes_operatorsAfter ih
        unary := passes_unary ih
        callsAfter := passes_callsAfter ih
        arguments := passes_arguments ih }

end Lox.Parser
