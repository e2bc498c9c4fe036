import Lox.Decimal.Positional
import Lox.Syntax

/-!
The written form of a syntax tree: expressions with the operator in front and parentheses around,
statements with braces. Quotes stand around text as it is, nothing in it is escaped.
-/

namespace Lox

def Literal.numberSpelling : Decimal.Spelling :=
  { notANumber := "NaN", infinity := "inf" }

def Literal.written : Literal → String
  | number value => Decimal.text numberSpelling value
  | text value => "\"" ++ value ++ "\""
  | boolean true => "true"
  | boolean false => "false"
  | nil => "nil"

def UnaryOp.symbol : UnaryOp → String
  | negate => "-"
  | not => "!"

def BinaryOp.symbol : BinaryOp → String
  | equal => "=="
  | notEqual => "!="
  | less => "<"
  | lessEqual => "<="
  | greater => ">"
  | greaterEqual => ">="
  | add => "+"
  | subtract => "-"
  | multiply => "*"
  | divide => "/"

def LogicalOp.symbol : LogicalOp → String
  | and => "and"
  | or => "or"

mutual

def Expr.written : Expr → String
  | .literal value => value.written
  | .grouping inner => "(group " ++ inner.written ++ ")"
  | .unary op _ operand => "(" ++ op.symbol ++ " " ++ operand.written ++ ")"
  | .binary op _ left right =>
    "(" ++ op.symbol ++ " " ++ left.written ++ " " ++ right.written ++ ")"
  | .logical op _ left right =>
    "(" ++ op.symbol ++ " " ++ left.written ++ " " ++ right.written ++ ")"
  | .read target => target.name.text
  | .assign target value => "(= " ++ target.name.text ++ " " ++ value.written ++ ")"
  | .call callee arguments _ =>
    "(call " ++ callee.written ++ Expr.writtenArguments arguments ++ ")"
  | .get object property => "(. " ++ object.written ++ " " ++ property.text ++ ")"
  | .set object property value =>
    "(= (. " ++ object.written ++ " " ++ property.text ++ ") " ++ value.written ++ ")"
  | .this _ => "this"
  | .super _ method => "super." ++ method.text

/-- The written form of arguments, each with a blank in front. -/
def Expr.writtenArguments : List Expr → String
  | [] => ""
  | argument :: rest => " " ++ argument.written ++ Expr.writtenArguments rest

end

/-- The written form of an initial value or of a returned value, with `lead` in front of it. -/
def Expr.writtenAfter (lead : String) : Option Expr → String
  | none => ""
  | some value => lead ++ value.written

mutual

def Stmt.written : Stmt → String
  | .expression value => value.written ++ ";"
  | .print _ value => "print " ++ value.written ++ ";"
  | .varDecl name initial => "var " ++ name.text ++ Expr.writtenAfter " = " initial ++ ";"
  | .functionDecl decl => "fun " ++ decl.written
  | .classDecl decl => decl.written
  | .block body => "\x7b " ++ Stmt.writtenBody body ++ "\x7d"
  | .ifElse condition thenBranch none =>
    "if (" ++ condition.written ++ ") " ++ thenBranch.written
  | .ifElse condition thenBranch (some elseBranch) =>
    "if (" ++ condition.written ++ ") " ++ thenBranch.written ++ " else " ++ elseBranch.written
  | .whileLoop condition body => "while (" ++ condition.written ++ ") " ++ body.written
  | .ret _ value => "return" ++ Expr.writtenAfter " " value ++ ";"

/-- The written form of statements, each with a blank behind. -/
def Stmt.writtenBody : List Stmt → String
  | [] => ""
  | statement :: rest => statement.written ++ " " ++ Stmt.writtenBody rest

/-- The written form of a function, which is also that of a method. -/
def FunctionDecl.written : FunctionDecl → String
  | ⟨name, params, body⟩ =>
    name.text ++ "(" ++ ", ".intercalate (params.map Name.text) ++ ") \x7b " ++
      Stmt.writtenBody body ++ "\x7d"

def ClassDecl.written : ClassDecl → String
  | ⟨name, superclass, methods⟩ =>
    "class " ++ name.text ++ (superclass.elim "" fun target => " < " ++ target.name.text) ++
      " \x7b " ++ FunctionDecl.writtenMethods methods ++ "\x7d"

/-- The written form of methods, each with a blank behind. -/
def FunctionDecl.writtenMethods : List FunctionDecl → String
  | [] => ""
  | method :: rest => method.written ++ " " ++ FunctionDecl.writtenMethods rest

end

/-- The written form of a program, a line for each statement. -/
def Program.written (program : Program) : String :=
  String.join (program.map fun statement => statement.written ++ "\n")

end Lox
