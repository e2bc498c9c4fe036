import Lox.Token

/-!
Syntax trees. A tree keeps the lines that errors are reported at, and every use of a variable
carries an identity of its own, so that two uses of one name can be bound differently.
-/

namespace Lox

structure Name where
  text : String
  line : Nat
deriving DecidableEq, Repr

/-- A use of a name. The identity tells it from every other use. -/
structure Reference where
  id : Nat
  name : Name
deriving DecidableEq, Repr

inductive UnaryOp
  | negate | not
deriving DecidableEq, Repr

inductive BinaryOp
  | equal | notEqual | less | lessEqual | greater | greaterEqual
  | add | subtract | multiply | divide
deriving DecidableEq, Repr

/-- The operators that may do without their right operand. -/
inductive LogicalOp
  | and | or
deriving DecidableEq, Repr

/-- Expressions. The line of a call is that of its closing parenthesis. -/
inductive Expr
  | literal (value : Literal)
  | grouping (inner : Expr)
  | unary (op : UnaryOp) (line : Nat) (operand : Expr)
  | binary (op : BinaryOp) (line : Nat) (left right : Expr)
  | logical (op : LogicalOp) (line : Nat) (left right : Expr)
  | read (target : Reference)
  | assign (target : Reference) (value : Expr)
  | call (callee : Expr) (arguments : List Expr) (line : Nat)
  | get (object : Expr) (property : Name)
  | set (object : Expr) (property : Name) (value : Expr)
  | this (keyword : Reference)
  | super (keyword : Reference) (method : Name)
deriving Repr

mutual

inductive Stmt
  | expression (value : Expr)
  | print (line : Nat) (value : Expr)
  | varDecl (name : Name) (initial : Option Expr)
  | functionDecl (decl : FunctionDecl)
  | classDecl (decl : ClassDecl)
  | block (body : List Stmt)
  | ifElse (condition : Expr) (thenBranch : Stmt) (elseBranch : Option Stmt)
  | whileLoop (condition : Expr) (body : Stmt)
  | ret (keyword : Name) (value : Option Expr)

structure FunctionDecl where
  name : Name
  params : List Name
  body : List Stmt

structure ClassDecl where
  name : Name
  superclass : Option Reference
  methods : List FunctionDecl

end

/-- A program: its top-level statements. -/
abbrev Program := List Stmt

/-- A method of this name sets up a new instance. -/
def initializerName : String :=
  "init"

def FunctionDecl.isInitializer (decl : FunctionDecl) : Bool :=
  decl.name.text == initializerName

end Lox
