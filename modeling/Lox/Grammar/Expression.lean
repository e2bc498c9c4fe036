import Lox.Grammar.Parser

/-!
The grammar of expressions. Assignment binds loosest and to the right; the binary operators come in
tiers and bind to the left; then the unary operators, calls and properties, and what stands alone.
-/

namespace Lox

/-- The tiers of binary operators, from the loosest to the tightest. -/
inductive Tier
  | disjunction | conjunction | equality | comparison | term | factor
deriving DecidableEq, Repr

inductive Connective
  | logical (op : LogicalOp)
  | binary (op : BinaryOp)
deriving DecidableEq, Repr

def Connective.join (line : Nat) (left right : Expr) : Connective → Expr
  | logical op => .logical op line left right
  | binary op => .binary op line left right

namespace Tier

/-- The tier of the operands; those of the tightest are unary expressions. -/
def tighter? : Tier → Option Tier
  | disjunction => some conjunction
  | conjunction => some equality
  | equality => some comparison
  | comparison => some term
  | term => some factor
  | factor => none

def connective? : Tier → Token.Kind → Option Connective
  | disjunction, .kwOr => some (.logical .or)
  | conjunction, .kwAnd => some (.logical .and)
  | equality, .equalEqual => some (.binary .equal)
  | equality, .bangEqual => some (.binary .notEqual)
  | comparison, .less => some (.binary .less)
  | comparison, .lessEqual => some (.binary .lessEqual)
  | comparison, .greater => some (.binary .greater)
  | comparison, .greaterEqual => some (.binary .greaterEqual)
  | term, .plus => some (.binary .add)
  | term, .minus => some (.binary .subtract)
  | factor, .star => some (.binary .multiply)
  | factor, .slash => some (.binary .divide)
  | _, _ => none

end Tier

def UnaryOp.ofKind? : Token.Kind → Option UnaryOp
  | .minus => some .negate
  | .bang => some .not
  | _ => none

def maxArguments : Nat :=
  255

namespace Parser

/-- Keeps the fault that there are too many of something, when one more is about to be read. -/
def limit (count : Nat) (what : String) (rule : Rule) : Parser Unit := do
  if maxArguments ≤ count then
    report (← faultHere (.tooMany what) rule)

def operand (operators : Tier → Parser Expr) (unary : Parser Expr) (tier : Tier) : Parser Expr :=
  match tier.tighter? with
  | some tighter => operators tighter
  | none => unary

def peekConnective (tier : Tier) : Parser (Option (Connective × Nat)) := do
  return (← peek).bind fun token => (tier.connective? token.kind).map (·, token.line)

def peekUnaryOp : Parser (Option (UnaryOp × Nat)) := do
  return (← peek).bind fun token => (UnaryOp.ofKind? token.kind).map (·, token.line)

/-- Makes an assignment of what stands on its two sides. Only a variable or a property can be
assigned to; any other left side is a fault, and the expression is that side alone. -/
def assignTo (fault : ParseError) (target value : Expr) : Parser Expr :=
  match target with
  | .read reference => return .assign reference value
  | .get object property => return .set object property value
  | other => do
    report fault
    return other

/-- What stands alone: a literal, a name, `this`, a method of the superclass, or an expression in
parentheses. -/
def primary (expression : Parser Expr) : Parser Expr := do
  let some token ← peek | fail .expectedExpression .primary
  match token.kind with
  | .kwFalse =>
    skip
    return .literal (.boolean false)
  | .kwTrue =>
    skip
    return .literal (.boolean true)
  | .kwNil =>
    skip
    return .literal .nil
  | .number | .string =>
    skip
    return .literal (token.literal.getD .nil)
  | .identifier =>
    skip
    return .read (← newReference token.name)
  | .kwThis =>
    skip
    return .this (← newReference token.name)
  | .kwSuper =>
    skip
    let _ ← expect .dot "'.' after 'super'" .primary
    let method ← expectName "superclass method name" .primary
    return .super (← newReference token.name) method
  | .leftParen =>
    skip
    let inner ← expression
    let _ ← expect .rightParen "')' after expression" .primary
    return .grouping inner
  | _ => fail .expectedExpression .primary

mutual

/-- An assignment, or an expression of the loosest tier. -/
def expression : (fuel : Nat) → Parser Expr
  | 0 => throw .outOfFuel
  | fuel + 1 => do
    let target ← operators fuel .disjunction
    if ← check .equal then
      let fault ← faultHere .invalidAssignmentTarget .assignment
      skip
      assignTo fault target (← expression fuel)
    else return target

def operators : (fuel : Nat) → Tier → Parser Expr
  | 0, _ => throw .outOfFuel
  | fuel + 1, tier => do
    operatorsAfter fuel tier (← operand (operators fuel) (unary fuel) tier)

def operatorsAfter : (fuel : Nat) → Tier → Expr → Parser Expr
  | 0, _, _ => throw .outOfFuel
  | fuel + 1, tier, left => do
    match ← peekConnective tier with
    | none => return left
    | some (connective, line) =>
      skip
      let right ← operand (operators fuel) (unary fuel) tier
      operatorsAfter fuel tier (connective.join line left right)

def unary : (fuel : Nat) → Parser Expr
  | 0 => throw .outOfFuel
  | fuel + 1 => do
    match ← peekUnaryOp with
    | none => callsAfter fuel (← primary (expression fuel))
    | some (op, line) =>
      skip
      return .unary op line (← unary fuel)

def callsAfter : (fuel : Nat) → Expr → Parser Expr
  | 0, _ => throw .outOfFuel
  | fuel + 1, callee => do
    if ← accept .leftParen then
      let given ← if ← check .rightParen then pure [] else arguments fuel 0
      let paren ← expect .rightParen "')' after arguments" .call
      callsAfter fuel (.call callee given paren.line)
    else if ← accept .dot then
      callsAfter fuel (.get callee (← expectName "property name after '.'" .call))
    else return callee

/-- Arguments with commas between, after `count` others. -/
def arguments : (fuel : Nat) → (count : Nat) → Parser (List Expr)
  | 0, _ => throw .outOfFuel
  | fuel + 1, count => do
    limit count "arguments" .call
    let argument ← expression fuel
    if ← accept .comma then
      return argument :: (← arguments fuel (count + 1))
    else return [argument]

end

end Parser

end Lox
