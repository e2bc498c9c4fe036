import Lox.Grammar.Program
import Lox.Proofs.Recovery.Advance

/-! The parsers under check: they say which slice of the tokens each of them is called on, and raise an
alarm where a slice or an index would be out of range, where a production returns no proper suffix of
its slice or fails at no suffix of it, and where a round of a loop passes no token. -/

namespace Lox

/-- What must not happen while tokens are read. -/
inductive Alarm
  | outOfRange | saturated | improper | misplaced | idle
deriving DecidableEq, Repr

instance (e : ParseError) (offending : List Token) : Decidable (e.FoundAt offending) :=
  decidable_of_iff (e.remaining = offending.length ∧ e.line = offending.head?.elim 0 Token.line ∧
      e.found = offending.head?.bind Token.found?)
    ⟨fun h => ⟨h.1, h.2.1, h.2.2⟩, fun h => ⟨h.remaining, h.line, h.found⟩⟩

abbrev Checked := ExceptT Alarm Parser

namespace Checked

variable {α : Type}

def lift (x : Parser α) : Checked α :=
  ExceptT.lift x

def demand (p : Prop) [Decidable p] (alarm : Alarm) : Checked Unit :=
  if p then pure () else throw alarm

def onFailure (x : Checked α) (handle : ParseError → Checked α) : Checked α :=
  ExceptT.mk (tryCatch x.run fun
    | .failed e => (handle e).run
    | .outOfFuel => throw .outOfFuel)

/-- The tokens left. -/
def slice : Checked (List Token) :=
  lift do return (← get).rest

/-- Goes on with the slice from the second token on. -/
def skip : Checked Unit := do
  demand (1 ≤ (← slice).length) .outOfRange
  lift Parser.skip

/-- The first token of the slice. -/
def first : Checked Token := do
  match (← slice)[0]? with
  | some token => return token
  | none => throw .outOfRange

/-- A production, called on the slice that is left. -/
def production (x : Checked α) : Checked α := do
  let tokens ← slice
  let a ← onFailure x fun e => do
    demand (e.FoundAt (tokens.drop (tokens.length - e.remaining))) .misplaced
    lift (throw (.failed e))
  let rest ← slice
  demand (rest <:+ tokens ∧ rest ≠ tokens) .improper
  return a

/-- One round of a loop. -/
def round (x : Checked α) : Checked α := do
  let tokens ← slice
  let a ← x
  demand ((← slice).length < tokens.length) .idle
  return a

def accept (kind : Token.Kind) : Checked Bool := do
  if ← lift (Parser.check kind) then
    skip
    return true
  return false

def expect (kind : Token.Kind) (what : String) (rule : Rule) : Checked Token :=
  production (lift (Parser.expect kind what rule))

def expectName (what : String) (rule : Rule) : Checked Name := do
  return (← expect .identifier what rule).name

section Expressions

def operand (operators : Tier → Checked Expr) (unary : Checked Expr) (tier : Tier) : Checked Expr :=
  match tier.tighter? with
  | some tighter => operators tighter
  | none => unary

def primary (expression : Checked Expr) : Checked Expr := production do
  let some token ← lift Parser.peek | lift (Parser.fail .expectedExpression .primary)
  match token.kind with
  | .kwFalse =>
    skip
    return .literal (.boolean false)
  | .kwTrue =>
    skip
    return .literal (.boolean true)
  | .kwNil =>
    skip
    return .literal .nil
  | .number | .string =>
    skip
    return .literal (token.literal.getD .nil)
  | .identifier =>
    skip
    return .read (← lift (Parser.newReference token.name))
  | .kwThis =>
    skip
    return .this (← lift (Parser.newReference token.name))
  | .kwSuper =>
    skip
    let _ ← expect .dot "'.' after 'super'" .primary
    let method ← expectName "superclass method name" .primary
    return .super (← lift (Parser.newReference token.name)) method
  | .leftParen =>
    skip
    let inner ← expression
    let _ ← expect .rightParen "')' after expression" .primary
    return .grouping inner
  | _ => lift (Parser.fail .expectedExpression .primary)

def finishCall (callee : Expr) (arguments : Checked (List Expr)) : Checked Expr := production do
  let given ← if ← lift (Parser.check .rightParen) then pure [] else arguments
  let paren ← expect .rightParen "')' after arguments" .call
  return .call callee given paren.line

def call (primary : Checked Expr) (callsAfter : Expr → Checked Expr) : Checked Expr := production do
  callsAfter (← primary)

mutual

def expression : (fuel : Nat) → Checked Expr
  | 0 => lift (throw .outOfFuel)
  | fuel + 1 => production do
    let target ← operators fuel .disjunction
    if ← lift (Parser.check .equal) then
      let fault ← lift (Parser.faultHere .invalidAssignmentTarget .assignment)
      skip
      let value ← expression fuel
      lift (Parser.assignTo fault target value)
    else return target

def operators : (fuel : Nat) → Tier → Checked Expr
  | 0, _ => lift (throw .outOfFuel)
  | fuel + 1, tier => production do
    operatorsAfter fuel tier (← operand (operators fuel) (unary fuel) tier)

def operatorsAfter : (fuel : Nat) → Tier → Expr → Checked Expr
  | 0, _, _ => lift (throw .outOfFuel)
  | fuel + 1, tier, left => do
    match ← lift (Parser.peekConnective tier) with
    | none => return left
    | some (connective, line) =>
      let right ← round do
        skip
        operand (operators fuel) (unary fuel) tier
      operatorsAfter fuel tier (connective.join line left right)

def unary : (fuel : Nat) → Checked Expr
  | 0 => lift (throw .outOfFuel)
  | fuel + 1 => production do
    match ← lift Parser.peekUnaryOp with
    | none => call (primary (expression fuel)) (callsAfter fuel)
    | some (op, line) =>
      skip
      return .unary op line (← unary fuel)

/-- The loop over calls and properties. -/
def callsAfter : (fuel : Nat) → Expr → Checked Expr
  | 0, _ => lift (throw .outOfFuel)
  | fuel + 1, callee => do
    if ← lift (Parser.check .leftParen) then
      callsAfter fuel (← round do
        skip
        finishCall callee (arguments fuel 0))
    else if ← lift (Parser.check .dot) then
      callsAfter fuel (← round do
        skip
        return .get callee (← expectName "property name after '.'" .call))
    else return callee

/-- The loop over arguments. -/
def arguments : (fuel : Nat) → (count : Nat) → Checked (List Expr)
  | 0, _ => lift (throw .outOfFuel)
  | fuel + 1, count => do
    let (argument, more) ← round do
      lift (Parser.limit count "arguments" .call)
      let argument ← expression fuel
      return (argument, ← accept .comma)
    if more then return argument :: (← arguments fuel (count + 1))
    else return [argument]

end

end Expressions

section Statements

variable (expression : Checked Expr) (statement : Checked Stmt)

def expressionUnless (kind : Token.Kind) : Checked (Option Expr) := do
  if ← lift (Parser.check kind) then return none
  else return some (← expression)

def varDeclaration : Checked Stmt := production do
  let name ← expectName "variable name" .varDeclaration
  let initial ← if ← accept .equal then some <$> expression else pure none
  let _ ← expect .semicolon "';' after variable declaration" .varDeclaration
  return .varDecl name initial

def expressionStatement : Checked Stmt := production do
  let value ← expression
  let _ ← expect .semicolon "';' after expression" .expressionStatement
  return .expression value

/-- A print statement, with its keyword. -/
def printStatement : Checked Stmt := production do
  let keyword ← first
  skip
  let value ← expression
  let _ ← expect .semicolon "';' after value" .printStatement
  return .print keyword.line value

/-- A return statement, with its keyword. -/
def returnStatement : Checked Stmt := production do
  let keyword ← first
  skip
  let value ← expressionUnless expression .semicolon
  let _ ← expect .semicolon "';' after return value" .returnStatement
  return .ret keyword.name value

def whileStatement : Checked Stmt := production do
  let _ ← expect .leftParen "'(' after 'while'" .whileStatement
  let condition ← expression
  let _ ← expect .rightParen "')' after condition" .whileStatement
  return .whileLoop condition (← statement)

def ifStatement : Checked Stmt := production do
  let _ ← expect .leftParen "'(' after 'if'" .ifStatement
  let condition ← expression
  let _ ← expect .rightParen "')' after if condition" .ifStatement
  let thenBranch ← statement
  let elseBranch ← if ← accept .kwElse then some <$> statement else pure none
  return .ifElse condition thenBranch elseBranch

def forInitial : Checked (Option Stmt) := do
  if ← accept .semicolon then return none
  else if ← accept .kwVar then some <$> varDeclaration expression
  else some <$> expressionStatement expression

def forStatement : Checked Stmt := production do
  let _ ← expect .leftParen "'(' after 'for'" .forStatement
  let initial ← forInitial expression
  let condition ← expressionUnless expression .semicolon
  let _ ← expect .semicolon "';' after loop condition" .forStatement
  let increment ← expressionUnless expression .rightParen
  let _ ← expect .rightParen "')' after for clauses" .forStatement
  return .forLoop initial condition increment (← statement)

end Statements

section Declarations

def block (declarations : Checked (List Stmt)) : Checked (List Stmt) := production do
  let body ← declarations
  let _ ← expect .rightBrace "'\x7d' after block" .block
  return body

/-- The loop over parameters. -/
def parameters : (fuel : Nat) → (count : Nat) → Checked (List Name)
  | 0, _ => lift (throw .outOfFuel)
  | fuel + 1, count => do
    let (parameter, more) ← round do
      lift (Parser.limit count "parameters" .function)
      let parameter ← expectName "parameter name" .function
      return (parameter, ← accept .comma)
    if more then return parameter :: (← parameters fuel (count + 1))
    else return [parameter]

def function (role : FunctionRole) (parameters : Checked (List Name))
    (declarations : Checked (List Stmt)) : Checked FunctionDecl := production do
  let name ← expectName (role.noun ++ " name") .function
  let _ ← expect .leftParen ("'(' after " ++ role.noun ++ " name") .function
  let params ← if ← lift (Parser.check .rightParen) then pure [] else parameters
  let _ ← expect .rightParen "')' after parameters" .function
  let _ ← expect .leftBrace ("'\x7b' before " ++ role.noun ++ " body") .function
  return { name, params, body := ← block declarations }

def superclass : Checked (Option Reference) := do
  if ← accept .less then
    let name ← expectName "superclass name" .classDeclaration
    return some (← lift (Parser.newReference name))
  else return none

def classDeclaration (methods : Checked (List FunctionDecl)) : Checked Stmt := production do
  let name ← expectName "class name" .classDeclaration
  let superclass ← superclass
  let _ ← expect .leftBrace "'\x7b' before class body" .classDeclaration
  let methods ← methods
  let _ ← expect .rightBrace "'\x7d' after class body" .classDeclaration
  return .classDecl { name, superclass, methods }

/-- The slice at which a declaration failed is found by the count of its tokens, which must not be more
than there were. -/
def recovering (declaration : Checked Stmt) : Checked (Option Stmt) := do
  let tokens ← slice
  onFailure (some <$> declaration) fun e => do
    demand (e.remaining ≤ tokens.length) .saturated
    demand (tokens.length - e.remaining ≤ tokens.length) .outOfRange
    lift (Parser.report e)
    lift (modify fun c => { c with rest := resumption (tokens.drop (tokens.length - e.remaining)) })
    return none

mutual

/-- The loop over the declarations of a program, or a block. -/
def declarations : (fuel : Nat) → (inBlock : Bool) → Checked (List Stmt)
  | 0, _ => lift (throw .outOfFuel)
  | fuel + 1, inBlock => do
    if ← lift (Parser.atClose inBlock) then return []
    else
      let first ← round (recovering (declaration fuel))
      return first.toList ++ (← declarations fuel inBlock)

def declaration : (fuel : Nat) → Checked Stmt
  | 0 => lift (throw .outOfFuel)
  | fuel + 1 => production do
    if ← accept .kwClass then classDeclaration (methods fuel)
    else if ← accept .kwFun then
      .functionDecl <$> function .function (parameters fuel 0) (declarations fuel true)
    else if ← accept .kwVar then varDeclaration (expression fuel)
    else statement fuel

def statement : (fuel : Nat) → Checked Stmt
  | 0 => lift (throw .outOfFuel)
  | fuel + 1 => production do
    match ← lift Parser.peek with
    | none => expressionStatement (expression fuel)
    | some token =>
      match token.kind with
      | .kwFor =>
        skip
        forStatement (expression fuel) (statement fuel)
      | .kwIf =>
        skip
        ifStatement (expression fuel) (statement fuel)
      | .kwPrint => printStatement (expression fuel)
      | .kwReturn => returnStatement (expression fuel)
      | .kwWhile =>
        skip
        whileStatement (expression fuel) (statement fuel)
      | .leftBrace =>
        skip
        .block <$> block (declarations fuel true)
      | _ => expressionStatement (expression fuel)

/-- The loop over the methods of a class. -/
def methods : (fuel : Nat) → Checked (List FunctionDecl)
  | 0 => lift (throw .outOfFuel)
  | fuel + 1 => do
    if ← lift (Parser.atClose true) then return []
    else
      let method ← round (function .method (parameters fuel 0) (declarations fuel true))
      return method :: (← methods fuel)

end

end Declarations

end Checked

end Lox
