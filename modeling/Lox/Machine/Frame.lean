import Lox.Bindings
import Lox.Value

/-!
Frames of bindings. A frame is enclosed by another, and so on outward to the global one; whoever
refers to a frame sees what others bind in it.

Names are found in two ways: by going outward to the nearest frame that binds the name, or in the
frame a given number of steps outward and in no other.
-/

namespace Lox

structure Frame where
  bindings : Bindings Value
  enclosing : Option FrameRef
deriving DecidableEq, Repr

/-- All the frames there are, in the order in which they were made. -/
structure Frames where
  all : Array Frame
deriving DecidableEq, Repr

/-- The frame made first, which has none around it. -/
def FrameRef.globals : FrameRef :=
  ⟨0⟩

namespace Frames

def initial : Frames :=
  ⟨#[⟨∅, none⟩]⟩

def get? (frames : Frames) (ref : FrameRef) : Option Frame :=
  frames.all[ref.index]?

/-- What a name is bound to in exactly this frame. -/
def lookup? (frames : Frames) (ref : FrameRef) (name : String) : Option Value :=
  (frames.get? ref).bind (·.bindings.get? name)

def binds (frames : Frames) (ref : FrameRef) (name : String) : Bool :=
  (frames.lookup? ref name).isSome

def enclosing? (frames : Frames) (ref : FrameRef) : Option FrameRef :=
  (frames.get? ref).bind (·.enclosing)

def next (frames : Frames) : FrameRef :=
  ⟨frames.all.size⟩

def push (frames : Frames) (enclosing : FrameRef) (bindings : Bindings Value) : Frames :=
  ⟨frames.all.push ⟨bindings, some enclosing⟩⟩

/-- Binds a name in exactly this frame, replacing any binding it has there. -/
def define (frames : Frames) (ref : FrameRef) (name : String) (value : Value) : Frames :=
  ⟨frames.all.modify ref.index fun frame =>
    { frame with bindings := frame.bindings.insert name value }⟩

def ancestor? (frames : Frames) (ref : FrameRef) : (distance : Nat) → Option FrameRef
  | 0 => some ref
  | distance + 1 => (frames.enclosing? ref).bind (frames.ancestor? · distance)

/-- The nearest frame outward that binds a name, among the first `count` ones. -/
def nearest? (frames : Frames) (name : String) : (count : Nat) → FrameRef → Option FrameRef
  | 0, _ => none
  | count + 1, ref =>
    if frames.binds ref name then some ref
    else (frames.enclosing? ref).bind (frames.nearest? name count)

/-- The nearest frame outward that binds a name. A frame is made after the one around it, so there
are no more frames outward than its place in the order tells. -/
def binder? (frames : Frames) (ref : FrameRef) (name : String) : Option FrameRef :=
  frames.nearest? name (ref.index + 1) ref

/-- The frame a number of steps outward, if it binds a name. -/
def binderAt? (frames : Frames) (ref : FrameRef) (distance : Nat) (name : String) :
    Option FrameRef :=
  (frames.ancestor? ref distance).filter (frames.binds · name)

def find? (frames : Frames) (ref : FrameRef) (name : String) : Option Value :=
  (frames.binder? ref name).bind (frames.lookup? · name)

def findAt? (frames : Frames) (ref : FrameRef) (distance : Nat) (name : String) : Option Value :=
  (frames.ancestor? ref distance).bind (frames.lookup? · name)

def assign? (frames : Frames) (ref : FrameRef) (name : String) (value : Value) : Option Frames :=
  (frames.binder? ref name).map (frames.define · name value)

def assignAt? (frames : Frames) (ref : FrameRef) (distance : Nat) (name : String) (value : Value) :
    Option Frames :=
  (frames.binderAt? ref distance name).map (frames.define · name value)

@[simp] theorem size_define (frames : Frames) (ref : FrameRef) (name : String) (value : Value) :
    (frames.define ref name value).all.size = frames.all.size := by
  simp [define]

theorem get?_define (frames : Frames) (ref other : FrameRef) (name : String) (value : Value) :
    (frames.define ref name value).get? other =
      if ref = other then
        (frames.get? other).map fun frame =>
          { frame with bindings := frame.bindings.insert name value }
      else frames.get? other := by
  have h : ref.index = other.index ↔ ref = other := by
    cases ref
    cases other
    simp
  simp only [get?, define, Array.getElem?_modify, h]

@[simp] theorem enclosing?_define (frames : Frames) (ref other : FrameRef) (name : String)
    (value : Value) : (frames.define ref name value).enclosing? other = frames.enclosing? other := by
  rw [enclosing?, get?_define]
  split
  · cases h : frames.get? other <;> simp [enclosing?, h]
  · rfl

theorem lookup?_define (frames : Frames) (ref other : FrameRef) (name other' : String)
    (value : Value) :
    (frames.define ref name value).lookup? other other' =
      if ref = other ∧ other' = name then (frames.get? other).map fun _ => value
      else frames.lookup? other other' := by
  rw [lookup?, get?_define]
  by_cases hr : ref = other
  · cases h : frames.get? other with
    | none => simp [lookup?, hr, h]
    | some frame => by_cases hn : other' = name <;> simp [lookup?, hr, h, hn]
  · simp [lookup?, hr]

theorem get?_push (frames : Frames) (enclosing other : FrameRef) (bindings : Bindings Value) :
    (frames.push enclosing bindings).get? other =
      if other = frames.next then some ⟨bindings, some enclosing⟩ else frames.get? other := by
  have h : other.index = frames.all.size ↔ other = frames.next := by
    cases other
    simp [next]
  simp only [get?, push, Array.getElem?_push, h]

@[simp] theorem ancestor?_define (frames : Frames) (ref other : FrameRef) (name : String)
    (value : Value) (distance : Nat) :
    (frames.define ref name value).ancestor? other distance = frames.ancestor? other distance := by
  induction distance generalizing other with
  | zero => rfl
  | succ distance ih => simp [ancestor?, ih]

end Frames

end Lox
