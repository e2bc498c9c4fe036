import Lox.Machine.Frame
import Lox.Proofs.Labels.Keys
import Lox.Proofs.Machine.Frames

/-! Frames in which names go by other names, in all of them but the global one. -/

namespace Lox.Frames

variable {f : String → String} {frames : Frames} {ref other : FrameRef} {name : String}

def rename (f : String → String) (frames : Frames) : Frames :=
  ⟨frames.all.mapIdx fun i frame =>
    if i = FrameRef.globals.index then frame
    else { frame with bindings := frame.bindings.mapKeys f }⟩

/-- Under the other names `name` is told from whatever else the frame binds. -/
structure Tells (f : String → String) (frames : Frames) (ref : FrameRef) (name : String) : Prop where
  globals : ref = .globals → f name = name
  apart : ref ≠ .globals → ∀ other, frames.binds ref other = true → f other = f name → other = name

@[simp] lemma size_rename (f : String → String) (frames : Frames) :
    (frames.rename f).all.size = frames.all.size := by
  simp [rename]

@[simp] lemma next_rename (f : String → String) (frames : Frames) :
    (frames.rename f).next = frames.next := by
  simp [next]

lemma index_eq_globals_iff : ref.index = FrameRef.globals.index ↔ ref = .globals := by
  cases ref
  simp [FrameRef.globals]

lemma get?_rename (f : String → String) (frames : Frames) (ref : FrameRef) :
    (frames.rename f).get? ref = (frames.get? ref).map fun frame =>
      if ref = .globals then frame else { frame with bindings := frame.bindings.mapKeys f } := by
  simp only [get?, rename, Array.getElem?_mapIdx, index_eq_globals_iff]

@[simp] lemma enclosing?_rename (f : String → String) (frames : Frames) (ref : FrameRef) :
    (frames.rename f).enclosing? ref = frames.enclosing? ref := by
  rw [enclosing?, get?_rename, enclosing?]
  cases frames.get? ref with
  | none => rfl
  | some frame =>
    by_cases hr : ref = .globals <;> simp [hr]

@[simp] lemma ancestor?_rename (f : String → String) (frames : Frames) (ref : FrameRef)
    (distance : Nat) : (frames.rename f).ancestor? ref distance = frames.ancestor? ref distance := by
  induction distance generalizing ref with
  | zero => rfl
  | succ distance ih => simp [ancestor?, ih]

lemma bindings_apart (h : Tells f frames ref name) (hr : ref ≠ .globals) {frame : Frame}
    (hframe : frames.get? ref = some frame) : frame.bindings.Apart f name := by
  intro other hother
  apply h.apart hr
  simp only [binds, lookup?, hframe, Option.bind_some]
  exact hother

lemma lookup?_rename (h : Tells f frames ref name) :
    (frames.rename f).lookup? ref (f name) = frames.lookup? ref name := by
  rw [lookup?, get?_rename, lookup?]
  cases hframe : frames.get? ref with
  | none => rfl
  | some frame =>
    by_cases hr : ref = .globals
    · simp [hr, h.globals hr]
    · simp [hr, Bindings.get?_mapKeys (bindings_apart h hr hframe)]

lemma binds_rename (h : Tells f frames ref name) :
    (frames.rename f).binds ref (f name) = frames.binds ref name := by
  rw [binds, lookup?_rename h, binds]

lemma lookup?_rename_globals :
    (frames.rename f).lookup? .globals name = frames.lookup? .globals name := by
  rw [lookup?, get?_rename, lookup?]
  cases frames.get? .globals <;> simp

lemma push_rename (h : 0 < frames.all.size) (enclosing : FrameRef) (bindings : Bindings Value) :
    (frames.push enclosing bindings).rename f =
      (frames.rename f).push enclosing (bindings.mapKeys f) := by
  have hne : frames.all.size ≠ FrameRef.globals.index := Nat.ne_of_gt h
  simp only [push, rename, Array.mapIdx_push, hne, if_false]

lemma define_rename (h : Tells f frames ref name) (value : Value) :
    (frames.define ref name value).rename f = (frames.rename f).define ref (f name) value := by
  refine congrArg Frames.mk (Array.ext_getElem? fun i => ?_)
  simp only [define, rename, Array.getElem?_mapIdx, Array.getElem?_modify]
  by_cases hi : ref.index = i
  · subst hi
    cases hframe : frames.all[ref.index]? with
    | none => simp
    | some frame =>
      by_cases hr : ref = .globals
      · simp [hr, h.globals hr]
      · have hindex : ref.index ≠ FrameRef.globals.index := mt index_eq_globals_iff.mp hr
        have happart := bindings_apart h hr hframe
        simp [hindex, Bindings.mapKeys_insert happart]
  · simp [hi]

lemma rename_id (frames : Frames) : frames.rename id = frames := by
  refine congrArg Frames.mk (Array.ext_getElem? fun i => ?_)
  simp

end Lox.Frames
