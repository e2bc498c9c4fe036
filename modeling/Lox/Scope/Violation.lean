import Lox.Grammar.Error
import Lox.Syntax

/-!
The static rules that a program with good grammar can still break.
-/

namespace Lox

/-- The static rules, each named for what breaks it. -/
inductive Violation.Cause
  | returnFromTopLevel
  | returnFromInitializer
  | thisOutsideClass
  | superOutsideClass
  | superWithoutSuperclass
  | inheritsFromItself
  | readInOwnInitializer
  | alreadyDeclared
deriving DecidableEq, Repr

structure Violation where
  cause : Violation.Cause
  name : Name
deriving DecidableEq, Repr

namespace Violation

def Cause.message : Cause → String
  | returnFromTopLevel => "Cannot return from top-level code."
  | returnFromInitializer => "Cannot return a value from an initializer."
  | thisOutsideClass => "Cannot use 'this' outside of a class."
  | superOutsideClass => "Cannot use 'super' outside of a class."
  | superWithoutSuperclass => "Cannot use 'super' in a class with no superclass."
  | inheritsFromItself => "A class cannot inherit from itself."
  | readInOwnInitializer => "Cannot read local variable in its own initializer."
  | alreadyDeclared => "Variable with this name already declared in this scope."

def message (v : Violation) : String :=
  "[line " ++ toString v.name.line ++ "] Error" ++ locationText (some v.name.text) ++ ": " ++
    v.cause.message

end Violation

end Lox
