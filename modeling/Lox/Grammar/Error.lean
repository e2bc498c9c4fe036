import Lox.Token

/-!
Faults of grammar: what was found wrong, at which token, and in which rule.
-/

namespace Lox

inductive Rule
  | classDeclaration | function | varDeclaration | whileStatement | ifStatement | forStatement
  | block | expressionStatement | printStatement | returnStatement | assignment | call | primary
deriving DecidableEq, Repr

inductive ParseError.Cause
  | expected (what : String)
  | expectedExpression
  | invalidAssignmentTarget
  | tooMany (what : String)
deriving DecidableEq, Repr

/-- A fault of grammar. It is found at a token, or at the end if `found` is none; `remaining` counts
the tokens from there on. -/
structure ParseError where
  cause : ParseError.Cause
  line : Nat
  found : Option String
  rule : Rule
  remaining : Nat
deriving DecidableEq, Repr

def locationText : Option String → String
  | some lexeme => " at '" ++ lexeme ++ "'"
  | none => " at end"

namespace ParseError

def Cause.message : Cause → String
  | expected what => "Expect " ++ what ++ "."
  | expectedExpression => "Expect expression."
  | invalidAssignmentTarget => "Invalid assignment target."
  | tooMany what => "Cannot have more than 255 " ++ what ++ "."

def message (e : ParseError) : String :=
  "[line " ++ toString e.line ++ "] Error" ++ locationText e.found ++ ": " ++ e.cause.message

end ParseError

end Lox
