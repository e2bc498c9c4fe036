import Lox.Token

/-!
The values that a program computes with. Functions, classes and instances are referred to, so that
two of them are the same only if they are one and the same.
-/

namespace Lox

structure FrameRef where
  index : Nat
deriving DecidableEq, Repr

structure FunctionRef where
  index : Nat
deriving DecidableEq, Repr

structure ClassRef where
  index : Nat
deriving DecidableEq, Repr

structure InstanceRef where
  index : Nat
deriving DecidableEq, Repr

/-- The functions that no program declares. -/
inductive Native
  | clock
deriving DecidableEq, Repr

inductive Value
  | nil
  | boolean (value : Bool)
  | number (value : Float)
  | text (value : String)
  | native (function : Native)
  | functionAt (ref : FunctionRef)
  | classAt (ref : ClassRef)
  | instanceAt (ref : InstanceRef)
deriving DecidableEq, Repr

namespace Value

def ofLiteral : Literal → Value
  | .number value => number value
  | .text value => text value
  | .boolean value => boolean value
  | .nil => nil

/-- Whether a value counts as true: all do but `nil` and `false`. -/
def isTruthy : Value → Bool
  | nil => false
  | boolean value => value
  | _ => true

/-- Whether two values are equal. Numbers are compared as numbers, so that the two zeros are equal,
but not-a-number is equal to itself. -/
def isEqual : Value → Value → Bool
  | nil, nil => true
  | boolean a, boolean b => a == b
  | number a, number b => a == b || (a.isNaN && b.isNaN)
  | text a, text b => a == b
  | native a, native b => a == b
  | functionAt a, functionAt b => a == b
  | classAt a, classAt b => a == b
  | instanceAt a, instanceAt b => a == b
  | _, _ => false

end Value

end Lox
