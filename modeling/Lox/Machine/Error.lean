/-!
What can go wrong while a program runs.
-/

namespace Lox

inductive RuntimeError.Cause
  | outputFull
  | operandMustBeNumber
  | operandsMustBeNumbers
  | invalidAddOperands
  | undefinedVariable (name : String)
  | undefinedProperty (name : String)
  | notCallable
  | arityMismatch (expected given : Nat)
  | getOnNonInstance
  | setOnNonInstance
  | superclassNotClass
deriving DecidableEq, Repr

/-- The failure of a running program, with the line it is reported at. -/
structure RuntimeError where
  cause : RuntimeError.Cause
  line : Nat
deriving DecidableEq, Repr

namespace RuntimeError

def Cause.message : Cause → String
  | outputFull => "IO error: sink full"
  | operandMustBeNumber => "Operand must be a number."
  | operandsMustBeNumbers => "Operands must be numbers."
  | invalidAddOperands => "Operands must be two numbers or two strings."
  | undefinedVariable name => "Undefined variable '" ++ name ++ "'."
  | undefinedProperty name => "Undefined property '" ++ name ++ "'."
  | notCallable => "Can only call functions and classes."
  | arityMismatch expected given =>
    "Expected " ++ toString expected ++ " arguments but got " ++ toString given ++ "."
  | getOnNonInstance => "Only instances have properties."
  | setOnNonInstance => "Only instances have fields."
  | superclassNotClass => "Superclass must be a class."

def message (e : RuntimeError) : String :=
  e.cause.message ++ "\n[line " ++ toString e.line ++ "]"

end RuntimeError

end Lox
