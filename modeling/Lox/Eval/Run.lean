import Lox.Machine.Error
import Lox.Machine.State

/-!
Running on a machine: a run changes the machine and has a result, unless it halts. A run that halts
keeps the changes that it has made.
-/

namespace Lox

/-- Why a run has no result: the program fails, or the steps granted to it are used up. -/
inductive Halt
  | error (e : RuntimeError)
  | outOfFuel
deriving DecidableEq, Repr

/-- Changes a machine and has a result, or halts. -/
abbrev Run := ExceptT Halt (StateM Machine)

namespace Run

def fail {α : Type} (cause : RuntimeError.Cause) (line : Nat) : Run α :=
  throw (.error ⟨cause, line⟩)

/-- A result that may be missing; the run fails if it is. -/
def require {α : Type} (result : Option α) (cause : RuntimeError.Cause) (line : Nat) : Run α :=
  match result with
  | some value => pure value
  | none => fail cause line

/-- A result, or the failure that has come up instead. -/
def ofResult {α : Type} (line : Nat) : Except RuntimeError.Cause α → Run α
  | .ok value => pure value
  | .error cause => fail cause line

def currentFrame : Run FrameRef := do
  return (← get).current

def enter (frame : FrameRef) : Run Unit :=
  modify fun m => { m with current := frame }

def newFrame (enclosing : FrameRef) (bindings : Bindings Value) : Run FrameRef :=
  modifyGet fun m => (m.frames.next, { m with frames := m.frames.push enclosing bindings })

def newFunction (closure : Closure) : Run FunctionRef :=
  modifyGet fun m => (⟨m.functions.size⟩, { m with functions := m.functions.push closure })

def newClass (type : Class) : Run ClassRef :=
  modifyGet fun m => (⟨m.classes.size⟩, { m with classes := m.classes.push type })

def newInstance (ref : ClassRef) : Run InstanceRef :=
  modifyGet fun m => (⟨m.instances.size⟩, { m with instances := m.instances.push ⟨ref, ∅⟩ })

def define (frame : FrameRef) (name : String) (value : Value) : Run Unit :=
  modify fun m => { m with frames := m.frames.define frame name value }

def setField (self : InstanceRef) (name : String) (value : Value) : Run Unit :=
  modify fun m =>
    { m with
      instances := m.instances.modify self.index fun found =>
        { found with fields := found.fields.insert name value } }

def readClock : Run Float :=
  modifyGet fun m =>
    (m.clock.reading m.clock.taken, { m with clock.taken := m.clock.taken + 1 })

/-- Runs with another frame as the current one. However that ends, the frame that was current is
current again. -/
def within {α : Type} (frame : FrameRef) (body : Run α) : Run α :=
  ExceptT.mk do
    let outer := (← get).current
    modify fun m => { m with current := frame }
    let result ← body.run
    modify fun m => { m with current := outer }
    return result

/-- Prints a line. Of a line that does not fit into the output, the bytes that fit are printed, and
the run fails. -/
def print (text : String) (line : Nat) : Run Unit := do
  let bytes := (text ++ "\n").toUTF8
  let fits := (← get).output.fits bytes
  modify fun m => { m with output := m.output.write bytes }
  if !fits then fail .outputFull line

def read (target : Reference) : Run Value := do
  require ((← get).read? target) (.undefinedVariable target.name.text) target.name.line

def assign (target : Reference) (value : Value) : Run Unit := do
  let frame ←
    require ((← get).binder? target) (.undefinedVariable target.name.text) target.name.line
  define frame target.name.text value

end Run

end Lox
