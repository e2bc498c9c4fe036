import Lox.Decimal.Positional
import Lox.Machine.Frame
import Lox.Machine.Output
import Lox.Scope.Resolve

/-!
The state of a running program: frames, functions, classes and instances, the frame that is
current, the binding table, the output and the clock.
-/

namespace Lox

/-- A function or method together with the frame in which it was declared. -/
structure Closure where
  decl : FunctionDecl
  scope : FrameRef
  isInitializer : Bool

/-- A class. Of methods with one name the last is kept. -/
structure Class where
  name : String
  superclass : Option ClassRef
  methods : Bindings Closure

structure Instance where
  classRef : ClassRef
  fields : Bindings Value

/-- What an instance can have under a name. Its fields hide the methods of its class. -/
inductive Member
  | field (value : Value)
  | method (closure : Closure)

/-- What can be called. A class that is called makes an instance, and sets it up with the
initializer that is found for it, if there is one. -/
inductive Callable
  | native (function : Native)
  | function (closure : Closure)
  | construct (ref : ClassRef) (initializer : Option Closure)

def Closure.arity (closure : Closure) : Nat :=
  closure.decl.params.length

def Callable.arity : Callable → Nat
  | native .clock => 0
  | function closure => closure.arity
  | construct _ initializer => initializer.elim 0 Closure.arity

/-- A clock by the readings that it gives one after another, and how many were taken. -/
structure Clock where
  reading : Nat → Float
  taken : Nat

structure Machine where
  frames : Frames
  functions : Array Closure
  classes : Array Class
  instances : Array Instance
  current : FrameRef
  table : BindingTable
  output : Output
  clock : Clock

namespace Machine

def clockName : String :=
  "clock"

/-- A machine before any program. The clock is the only global name. -/
def initial (limit : Option Nat) (reading : Nat → Float) : Machine where
  frames := Frames.initial.define .globals clockName (.native .clock)
  functions := #[]
  classes := #[]
  instances := #[]
  current := .globals
  table := ∅
  output := ⟨limit, .empty⟩
  clock := ⟨reading, 0⟩

def function? (m : Machine) (ref : FunctionRef) : Option Closure :=
  m.functions[ref.index]?

def class? (m : Machine) (ref : ClassRef) : Option Class :=
  m.classes[ref.index]?

def instance? (m : Machine) (ref : InstanceRef) : Option Instance :=
  m.instances[ref.index]?

/-- The frame that binds a use of a name: by its distance if the table has one, else globally. -/
def binder? (m : Machine) (target : Reference) : Option FrameRef :=
  match m.table[target.id]? with
  | some distance => m.frames.binderAt? m.current distance target.name.text
  | none => m.frames.binder? .globals target.name.text

def read? (m : Machine) (target : Reference) : Option Value :=
  (m.binder? target).bind (m.frames.lookup? · target.name.text)

/-- A method of a class or of the nearest class above it, among the first `count` ones. -/
def methodAmong? (m : Machine) (name : String) : (count : Nat) → ClassRef → Option Closure
  | 0, _ => none
  | count + 1, ref =>
    (m.class? ref).bind fun found =>
      (found.methods.get? name).or (found.superclass.bind (m.methodAmong? name count))

/-- A method of a class or of the nearest class above it. A class is made after its superclass, so
there are no more classes above it than its place in the order tells. -/
def method? (m : Machine) (ref : ClassRef) (name : String) : Option Closure :=
  m.methodAmong? name (ref.index + 1) ref

/-- The class and the instance that a use of `super` is about: the class is bound at its distance,
and the instance one frame nearer. -/
def super? (m : Machine) (keyword : Reference) : Option (ClassRef × InstanceRef) :=
  match m.table[keyword.id]? with
  | some (distance + 1) =>
    match m.frames.findAt? m.current (distance + 1) Scope.superName,
      m.frames.findAt? m.current distance Scope.thisName with
    | some (.classAt superclass), some (.instanceAt self) => some (superclass, self)
    | _, _ => none
  | _ => none

def member? (m : Machine) (self : InstanceRef) (name : String) : Option Member :=
  (m.instance? self).bind fun found =>
    ((found.fields.get? name).map .field).or ((m.method? found.classRef name).map .method)

def callable? (m : Machine) : Value → Option Callable
  | .native function => some (.native function)
  | .functionAt ref => (m.function? ref).map .function
  | .classAt ref => some (.construct ref (m.method? ref initializerName))
  | _ => none

end Machine

def Value.numberSpelling : Decimal.Spelling :=
  { notANumber := "NaN", infinity := "Infinity" }

def Machine.className (m : Machine) (ref : ClassRef) : String :=
  (m.class? ref).elim "" Class.name

def Machine.textOf (m : Machine) : Value → String
  | .nil => "nil"
  | .boolean true => "true"
  | .boolean false => "false"
  | .number value => Decimal.text Value.numberSpelling value
  | .text value => value
  | .native _ => "<native fn>"
  | .functionAt ref => "<fn " ++ (m.function? ref).elim "" (·.decl.name.text) ++ ">"
  | .classAt ref => m.className ref
  | .instanceAt ref => (m.instance? ref).elim "" (m.className ·.classRef) ++ " instance"

end Lox
