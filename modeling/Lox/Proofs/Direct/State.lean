import Lox.Eval.Run
import Lox.Proofs.Direct.Tree

/-! The state of a program that is run with its loops as they are written. A function keeps the levels
around it, with the names that were declared in them when it was made. -/

namespace Lox.Direct

/-- The names that have been declared in a scope, and the frame that was made for it. -/
structure Level where
  names : List String
  frame : FrameRef

/-- The levels around a place, the innermost first. A name that none of them has is global. -/
abbrev Env := List Level

namespace Env

/-- The frame of the innermost level that has a name. -/
def frameOf (env : Env) (name : String) : FrameRef :=
  (env.find? (name ∈ ·.names)).elim .globals Level.frame

def innermost (env : Env) : FrameRef :=
  env.head?.elim .globals Level.frame

def declare (name : Name) : Env → Env
  | [] => []
  | level :: outer => { level with names := name.text :: level.names } :: outer

def after (env : Env) : Stmt → Env
  | .varDecl name _ => env.declare name
  | .functionDecl decl => env.declare decl.name
  | .classDecl decl => env.declare decl.name
  | _ => env

end Env

structure Closure where
  decl : FunctionDecl
  env : Env
  isInitializer : Bool

structure Class where
  name : String
  superclass : Option ClassRef
  methods : Bindings Closure

inductive Member
  | field (value : Value)
  | method (closure : Closure)

inductive Callable
  | native (function : Native)
  | function (closure : Closure)
  | construct (ref : ClassRef) (initializer : Option Closure)

def Closure.arity (closure : Closure) : Nat :=
  closure.decl.params.length

def Callable.arity : Callable → Nat
  | native .clock => 0
  | function closure => closure.arity
  | construct _ initializer => initializer.elim 0 Closure.arity

structure State where
  frames : Array (Bindings Value)
  functions : Array Closure
  classes : Array Class
  instances : Array Instance
  output : Output
  clock : Clock

namespace State

def initial (limit : Option Nat) (reading : Nat → Float) : State where
  frames := #[(∅ : Bindings Value).insert Machine.clockName (.native .clock)]
  functions := #[]
  classes := #[]
  instances := #[]
  output := ⟨limit, .empty⟩
  clock := ⟨reading, 0⟩

def lookup? (s : State) (frame : FrameRef) (name : String) : Option Value :=
  s.frames[frame.index]?.bind (·.get? name)

def find? (s : State) (env : Env) (name : String) : Option Value :=
  s.lookup? (env.frameOf name) name

def methodAmong? (s : State) (name : String) : (count : Nat) → ClassRef → Option Closure
  | 0, _ => none
  | count + 1, ref =>
    s.classes[ref.index]?.bind fun found =>
      (found.methods.get? name).or (found.superclass.bind (s.methodAmong? name count))

def method? (s : State) (ref : ClassRef) (name : String) : Option Closure :=
  s.methodAmong? name (ref.index + 1) ref

/-- The superclass and the instance for the methods that a place is in. -/
def super? (s : State) (env : Env) : Option (ClassRef × InstanceRef) :=
  match s.find? env Scope.superName, s.find? env Scope.thisName with
  | some (.classAt superclass), some (.instanceAt self) => some (superclass, self)
  | _, _ => none

def member? (s : State) (self : InstanceRef) (name : String) : Option Member :=
  s.instances[self.index]?.bind fun found =>
    ((found.fields.get? name).map .field).or ((s.method? found.classRef name).map .method)

def callable? (s : State) : Value → Option Callable
  | .native function => some (.native function)
  | .functionAt ref => s.functions[ref.index]?.map .function
  | .classAt ref => some (.construct ref (s.method? ref initializerName))
  | _ => none

def className (s : State) (ref : ClassRef) : String :=
  s.classes[ref.index]?.elim "" Class.name

def textOf (s : State) : Value → String
  | .nil => "nil"
  | .boolean true => "true"
  | .boolean false => "false"
  | .number value => Decimal.text Value.numberSpelling value
  | .text value => value
  | .native _ => "<native fn>"
  | .functionAt ref => "<fn " ++ s.functions[ref.index]?.elim "" (·.decl.name.text) ++ ">"
  | .classAt ref => s.className ref
  | .instanceAt ref => s.instances[ref.index]?.elim "" (s.className ·.classRef) ++ " instance"

end State

abbrev Run := ExceptT Halt (StateM State)

end Lox.Direct
