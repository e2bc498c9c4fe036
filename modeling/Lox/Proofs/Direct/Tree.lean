import Lox.Proofs.Grammar.Steps

/-! Trees in which a loop with clauses stands as it is written, and how they are read. The other
statements are those that there are without. -/

namespace Lox.Direct

mutual

inductive Stmt
  | expression (value : Expr)
  | print (line : Nat) (value : Expr)
  | varDecl (name : Name) (initial : Option Expr)
  | functionDecl (decl : FunctionDecl)
  | classDecl (decl : ClassDecl)
  | block (body : List Stmt)
  | ifElse (condition : Expr) (thenBranch : Stmt) (elseBranch : Option Stmt)
  | whileLoop (condition : Expr) (body : Stmt)
  | forLoop (initial : Option Stmt) (condition increment : Option Expr) (body : Stmt)
  | ret (keyword : Name) (value : Option Expr)

structure FunctionDecl where
  name : Name
  params : List Name
  body : List Stmt

structure ClassDecl where
  name : Name
  superclass : Option Reference
  methods : List FunctionDecl

end

abbrev Program := List Stmt

def FunctionDecl.isInitializer (decl : FunctionDecl) : Bool :=
  decl.name.text == initializerName

mutual

/-- The tree in which every loop with clauses is put in terms of the other statements. -/
def Stmt.desugar : Stmt → Lox.Stmt
  | .expression value => .expression value
  | .print line value => .print line value
  | .varDecl name initial => .varDecl name initial
  | .functionDecl decl => .functionDecl decl.desugar
  | .classDecl decl => .classDecl decl.desugar
  | .block body => .block (Stmt.desugarAll body)
  | .ifElse condition thenBranch none => .ifElse condition thenBranch.desugar none
  | .ifElse condition thenBranch (some elseBranch) =>
    .ifElse condition thenBranch.desugar (some elseBranch.desugar)
  | .whileLoop condition body => .whileLoop condition body.desugar
  | .forLoop none condition increment body => .forLoop none condition increment body.desugar
  | .forLoop (some first) condition increment body =>
    .forLoop (some first.desugar) condition increment body.desugar
  | .ret keyword value => .ret keyword value

def Stmt.desugarAll : List Stmt → List Lox.Stmt
  | [] => []
  | stated :: rest => stated.desugar :: Stmt.desugarAll rest

def FunctionDecl.desugar : FunctionDecl → Lox.FunctionDecl
  | ⟨name, params, body⟩ => ⟨name, params, Stmt.desugarAll body⟩

def FunctionDecl.desugarAll : List FunctionDecl → List Lox.FunctionDecl
  | [] => []
  | decl :: rest => decl.desugar :: FunctionDecl.desugarAll rest

def ClassDecl.desugar : ClassDecl → Lox.ClassDecl
  | ⟨name, superclass, methods⟩ => ⟨name, superclass, FunctionDecl.desugarAll methods⟩

end

lemma Stmt.desugar_ifElse (condition : Expr) (thenBranch : Stmt) (elseBranch : Option Stmt) :
    (ifElse condition thenBranch elseBranch).desugar =
      .ifElse condition thenBranch.desugar (elseBranch.map desugar) := by
  cases elseBranch <;> simp only [desugar, Option.map_none, Option.map_some]

lemma Stmt.desugar_forLoop (initial : Option Stmt) (condition increment : Option Expr) (body : Stmt) :
    (forLoop initial condition increment body).desugar =
      .forLoop (initial.map desugar) condition increment body.desugar := by
  cases initial <;> simp only [desugar, Option.map_none, Option.map_some]

@[simp] lemma FunctionDecl.desugar_name (decl : FunctionDecl) : decl.desugar.name = decl.name := by
  cases decl
  rfl

@[simp] lemma FunctionDecl.desugar_params (decl : FunctionDecl) : decl.desugar.params = decl.params := by
  cases decl
  rfl

@[simp] lemma FunctionDecl.desugar_body (decl : FunctionDecl) :
    decl.desugar.body = Stmt.desugarAll decl.body := by
  cases decl
  rfl

@[simp] lemma FunctionDecl.desugar_isInitializer (decl : FunctionDecl) :
    decl.desugar.isInitializer = decl.isInitializer := by
  cases decl
  rfl

lemma FunctionDecl.desugarAll_eq_map (decls : List FunctionDecl) :
    FunctionDecl.desugarAll decls = decls.map FunctionDecl.desugar := by
  induction decls with
  | nil => rfl
  | cons decl rest ih => exact congrArg (decl.desugar :: ·) ih

@[simp] lemma ClassDecl.desugar_name (decl : ClassDecl) : decl.desugar.name = decl.name := by
  cases decl
  rfl

@[simp] lemma ClassDecl.desugar_superclass (decl : ClassDecl) :
    decl.desugar.superclass = decl.superclass := by
  cases decl
  rfl

namespace Parser

open Lox.Parser

def varDeclaration (expression : Parser Expr) : Parser Stmt := do
  let name ← expectName "variable name" .varDeclaration
  let initial ← if ← accept .equal then some <$> expression else pure none
  let _ ← expect .semicolon "';' after variable declaration" .varDeclaration
  return .varDecl name initial

def expressionStatement (expression : Parser Expr) : Parser Stmt := do
  let value ← expression
  let _ ← expect .semicolon "';' after expression" .expressionStatement
  return .expression value

def printStatement (keyword : Token) (expression : Parser Expr) : Parser Stmt := do
  let value ← expression
  let _ ← expect .semicolon "';' after value" .printStatement
  return .print keyword.line value

def returnStatement (keyword : Token) (expression : Parser Expr) : Parser Stmt := do
  let value ← expressionUnless .semicolon expression
  let _ ← expect .semicolon "';' after return value" .returnStatement
  return .ret keyword.name value

def whileStatement (expression : Parser Expr) (statement : Parser Stmt) : Parser Stmt := do
  let _ ← expect .leftParen "'(' after 'while'" .whileStatement
  let condition ← expression
  let _ ← expect .rightParen "')' after condition" .whileStatement
  return .whileLoop condition (← statement)

def ifStatement (expression : Parser Expr) (statement : Parser Stmt) : Parser Stmt := do
  let _ ← expect .leftParen "'(' after 'if'" .ifStatement
  let condition ← expression
  let _ ← expect .rightParen "')' after if condition" .ifStatement
  let thenBranch ← statement
  let elseBranch ← if ← accept .kwElse then some <$> statement else pure none
  return .ifElse condition thenBranch elseBranch

def forInitial (expression : Parser Expr) : Parser (Option Stmt) := do
  if ← accept .semicolon then return none
  else if ← accept .kwVar then some <$> varDeclaration expression
  else some <$> expressionStatement expression

/-- The clauses of a for statement and its body make one tree. -/
def forStatement (expression : Parser Expr) (statement : Parser Stmt) : Parser Stmt := do
  let _ ← expect .leftParen "'(' after 'for'" .forStatement
  let initial ← forInitial expression
  let condition ← expressionUnless .semicolon expression
  let _ ← expect .semicolon "';' after loop condition" .forStatement
  let increment ← expressionUnless .rightParen expression
  let _ ← expect .rightParen "')' after for clauses" .forStatement
  return .forLoop initial condition increment (← statement)

def block (declarations : Parser (List Stmt)) : Parser (List Stmt) := do
  let body ← declarations
  let _ ← expect .rightBrace "'\x7d' after block" .block
  return body

def function (role : FunctionRole) (parameters : Parser (List Name))
    (declarations : Parser (List Stmt)) : Parser FunctionDecl := do
  let name ← expectName (role.noun ++ " name") .function
  let _ ← expect .leftParen ("'(' after " ++ role.noun ++ " name") .function
  let params ← if ← check .rightParen then pure [] else parameters
  let _ ← expect .rightParen "')' after parameters" .function
  let _ ← expect .leftBrace ("'\x7b' before " ++ role.noun ++ " body") .function
  return { name, params, body := ← block declarations }

def classDeclaration (methods : Parser (List FunctionDecl)) : Parser Stmt := do
  let name ← expectName "class name" .classDeclaration
  let superclass ← superclass
  let _ ← expect .leftBrace "'\x7b' before class body" .classDeclaration
  let methods ← methods
  let _ ← expect .rightBrace "'\x7d' after class body" .classDeclaration
  return .classDecl { name, superclass, methods }

def recovering (declaration : Parser Stmt) : Parser (Option Stmt) := do
  let start := (← get).rest
  tryCatch (some <$> declaration) fun
    | .failed e => do
      report e
      modify fun c => { c with rest := resumption (start.drop (start.length - e.remaining)) }
      return none
    | .outOfFuel => throw .outOfFuel

mutual

def declarations : (fuel : Nat) → (inBlock : Bool) → Parser (List Stmt)
  | 0, _ => throw .outOfFuel
  | fuel + 1, inBlock => do
    if ← atClose inBlock then return []
    else
      let first ← recovering (declaration fuel)
      return first.toList ++ (← declarations fuel inBlock)

def declaration : (fuel : Nat) → Parser Stmt
  | 0 => throw .outOfFuel
  | fuel + 1 => do
    if ← accept .kwClass then classDeclaration (methods fuel)
    else if ← accept .kwFun then
      .functionDecl <$> function .function (parameters fuel 0) (declarations fuel true)
    else if ← accept .kwVar then varDeclaration (expression fuel)
    else statement fuel

def statement : (fuel : Nat) → Parser Stmt
  | 0 => throw .outOfFuel
  | fuel + 1 => do
    match ← peek with
    | none => expressionStatement (expression fuel)
    | some token =>
      match token.kind with
      | .kwFor =>
        skip
        forStatement (expression fuel) (statement fuel)
      | .kwIf =>
        skip
        ifStatement (expression fuel) (statement fuel)
      | .kwPrint =>
        skip
        printStatement token (expression fuel)
      | .kwReturn =>
        skip
        returnStatement token (expression fuel)
      | .kwWhile =>
        skip
        whileStatement (expression fuel) (statement fuel)
      | .leftBrace =>
        skip
        .block <$> block (declarations fuel true)
      | _ => expressionStatement (expression fuel)

def methods : (fuel : Nat) → Parser (List FunctionDecl)
  | 0 => throw .outOfFuel
  | fuel + 1 => do
    if ← atClose true then return []
    else
      let method ← function .method (parameters fuel 0) (declarations fuel true)
      return method :: (← methods fuel)

end

def verdict (ended : Except Stop Program × Cursor) : Except (List ParseError) Program × Nat :=
  match ended.1, ended.2.errors with
  | .ok program, [] => (.ok program, ended.2.nextId)
  | _, errors => (.error errors.reverse, ended.2.nextId)

end Parser

/-- The program that tokens make up, its loops as they are written. -/
def Program.parse (tokens : List Token) (firstId : Nat) : Except (List ParseError) Program × Nat :=
  Parser.verdict (outcome (Parser.declarations (Lox.Parser.ample tokens.length) false)
    (Lox.Parser.startOf tokens firstId))

end Lox.Direct
