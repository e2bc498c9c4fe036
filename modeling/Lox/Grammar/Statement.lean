import Lox.Grammar.Expression

/-!
The grammar of statements and declarations. A declaration at fault inside a block, or at the top,
is reported and skipped, so that one reading finds the faults of all of them.
-/

namespace Lox

inductive FunctionRole
  | function | method
deriving DecidableEq, Repr

def FunctionRole.noun : FunctionRole → String
  | function => "function"
  | method => "method"

/-- Whether a token of a kind begins a statement or declaration that has a keyword. -/
def Token.Kind.beginsStatement : Kind → Bool
  | kwClass | kwFun | kwVar | kwFor | kwIf | kwWhile | kwPrint | kwReturn => true
  | _ => false

/-- Skips the offending token and what follows it, to just after a semicolon or just before a
keyword that begins a statement, but no end mark. -/
def resumption : List Token → List Token
  | [] => []
  | token :: rest =>
    if token.kind = .eof then token :: rest
    else if token.kind = .semicolon then rest
    else if rest.head?.any (·.kind.beginsStatement) then rest
    else resumption rest

/-- A loop with clauses, in terms of the other statements: the clauses that are there enclose a
plain loop. -/
def Stmt.forLoop (initial : Option Stmt) (condition increment : Option Expr) (body : Stmt) : Stmt :=
  let round := increment.elim body fun step => .block [body, .expression step]
  let loop := .whileLoop (condition.getD (.literal (.boolean true))) round
  initial.elim loop fun first => .block [first, loop]

namespace Parser

def expressionUnless (kind : Token.Kind) (expression : Parser Expr) : Parser (Option Expr) := do
  if ← check kind then return none
  else return some (← expression)

/-- The rest of a variable declaration after its keyword. -/
def varDeclaration (expression : Parser Expr) : Parser Stmt := do
  let name ← expectName "variable name" .varDeclaration
  let initial ← if ← accept .equal then some <$> expression else pure none
  let _ ← expect .semicolon "';' after variable declaration" .varDeclaration
  return .varDecl name initial

def expressionStatement (expression : Parser Expr) : Parser Stmt := do
  let value ← expression
  let _ ← expect .semicolon "';' after expression" .expressionStatement
  return .expression value

def printStatement (keyword : Token) (expression : Parser Expr) : Parser Stmt := do
  let value ← expression
  let _ ← expect .semicolon "';' after value" .printStatement
  return .print keyword.line value

def returnStatement (keyword : Token) (expression : Parser Expr) : Parser Stmt := do
  let value ← expressionUnless .semicolon expression
  let _ ← expect .semicolon "';' after return value" .returnStatement
  return .ret keyword.name value

def whileStatement (expression : Parser Expr) (statement : Parser Stmt) : Parser Stmt := do
  let _ ← expect .leftParen "'(' after 'while'" .whileStatement
  let condition ← expression
  let _ ← expect .rightParen "')' after condition" .whileStatement
  return .whileLoop condition (← statement)

/-- The rest of an if statement after its keyword; an `else` belongs to the nearest one. -/
def ifStatement (expression : Parser Expr) (statement : Parser Stmt) : Parser Stmt := do
  let _ ← expect .leftParen "'(' after 'if'" .ifStatement
  let condition ← expression
  let _ ← expect .rightParen "')' after if condition" .ifStatement
  let thenBranch ← statement
  let elseBranch ← if ← accept .kwElse then some <$> statement else pure none
  return .ifElse condition thenBranch elseBranch

/-- The first clause of a for statement, with the semicolon that ends it. -/
def forInitial (expression : Parser Expr) : Parser (Option Stmt) := do
  if ← accept .semicolon then return none
  else if ← accept .kwVar then some <$> varDeclaration expression
  else some <$> expressionStatement expression

def forStatement (expression : Parser Expr) (statement : Parser Stmt) : Parser Stmt := do
  let _ ← expect .leftParen "'(' after 'for'" .forStatement
  let initial ← forInitial expression
  let condition ← expressionUnless .semicolon expression
  let _ ← expect .semicolon "';' after loop condition" .forStatement
  let increment ← expressionUnless .rightParen expression
  let _ ← expect .rightParen "')' after for clauses" .forStatement
  return .forLoop initial condition increment (← statement)

def block (declarations : Parser (List Stmt)) : Parser (List Stmt) := do
  let body ← declarations
  let _ ← expect .rightBrace "'\x7d' after block" .block
  return body

/-- Parameter names with commas between, after `count` others. -/
def parameters : (fuel : Nat) → (count : Nat) → Parser (List Name)
  | 0, _ => throw .outOfFuel
  | fuel + 1, count => do
    limit count "parameters" .function
    let parameter ← expectName "parameter name" .function
    if ← accept .comma then
      return parameter :: (← parameters fuel (count + 1))
    else return [parameter]

def function (role : FunctionRole) (parameters : Parser (List Name))
    (declarations : Parser (List Stmt)) : Parser FunctionDecl := do
  let name ← expectName (role.noun ++ " name") .function
  let _ ← expect .leftParen ("'(' after " ++ role.noun ++ " name") .function
  let params ← if ← check .rightParen then pure [] else parameters
  let _ ← expect .rightParen "')' after parameters" .function
  let _ ← expect .leftBrace ("'\x7b' before " ++ role.noun ++ " body") .function
  return { name, params, body := ← block declarations }

def superclass : Parser (Option Reference) := do
  if ← accept .less then
    return some (← newReference (← expectName "superclass name" .classDeclaration))
  else return none

/-- The rest of a class declaration after its keyword. -/
def classDeclaration (methods : Parser (List FunctionDecl)) : Parser Stmt := do
  let name ← expectName "class name" .classDeclaration
  let superclass ← superclass
  let _ ← expect .leftBrace "'\x7b' before class body" .classDeclaration
  let methods ← methods
  let _ ← expect .rightBrace "'\x7d' after class body" .classDeclaration
  return .classDecl { name, superclass, methods }

/-- Reads a declaration. One at fault is reported and skipped, from the offending token on: that is
found again by the count of the tokens from there. -/
def recovering (declaration : Parser Stmt) : Parser (Option Stmt) := do
  let start := (← get).rest
  tryCatch (some <$> declaration) fun
    | .failed e => do
      report e
      modify fun c => { c with rest := resumption (start.drop (start.length - e.remaining)) }
      return none
    | .outOfFuel => throw .outOfFuel

/-- Whether the declarations of a block, or of a program, are at an end. -/
def atClose (inBlock : Bool) : Parser Bool := do
  match ← peek with
  | none => return true
  | some token => return token.kind == .eof || (inBlock && token.kind == .rightBrace)

mutual

/-- The declarations that can be read, to the end of the block or the program. -/
def declarations : (fuel : Nat) → (inBlock : Bool) → Parser (List Stmt)
  | 0, _ => throw .outOfFuel
  | fuel + 1, inBlock => do
    if ← atClose inBlock then return []
    else
      let first ← recovering (declaration fuel)
      return first.toList ++ (← declarations fuel inBlock)

def declaration : (fuel : Nat) → Parser Stmt
  | 0 => throw .outOfFuel
  | fuel + 1 => do
    if ← accept .kwClass then classDeclaration (methods fuel)
    else if ← accept .kwFun then
      .functionDecl <$> function .function (parameters fuel 0) (declarations fuel true)
    else if ← accept .kwVar then varDeclaration (expression fuel)
    else statement fuel

def statement : (fuel : Nat) → Parser Stmt
  | 0 => throw .outOfFuel
  | fuel + 1 => do
    match ← peek with
    | none => expressionStatement (expression fuel)
    | some token =>
      match token.kind with
      | .kwFor =>
        skip
        forStatement (expression fuel) (statement fuel)
      | .kwIf =>
        skip
        ifStatement (expression fuel) (statement fuel)
      | .kwPrint =>
        skip
        printStatement token (expression fuel)
      | .kwReturn =>
        skip
        returnStatement token (expression fuel)
      | .kwWhile =>
        skip
        whileStatement (expression fuel) (statement fuel)
      | .leftBrace =>
        skip
        .block <$> block (declarations fuel true)
      | _ => expressionStatement (expression fuel)

def methods : (fuel : Nat) → Parser (List FunctionDecl)
  | 0 => throw .outOfFuel
  | fuel + 1 => do
    if ← atClose true then return []
    else
      let method ← function .method (parameters fuel 0) (declarations fuel true)
      return method :: (← methods fuel)

end

end Parser

end Lox
