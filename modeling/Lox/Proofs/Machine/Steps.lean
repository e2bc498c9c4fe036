import Lox.Eval.Run
import Lox.Proofs.Machine.Frames
import Lox.Proofs.Outcome

/-! What the steps of a run make of a machine. -/

namespace Lox

namespace Run

variable {α : Type}

lemma outcome_within (frame : FrameRef) (body : Run α) (m : Machine) :
    outcome (within frame body) m =
      ((outcome body { m with current := frame }).1,
        { (outcome body { m with current := frame }).2 with current := m.current }) := rfl

lemma outcome_currentFrame (m : Machine) : outcome currentFrame m = (.ok m.current, m) := rfl

lemma outcome_newFrame (enclosing : FrameRef) (bindings : Bindings Value) (m : Machine) :
    outcome (newFrame enclosing bindings) m =
      (.ok m.frames.next, { m with frames := m.frames.push enclosing bindings }) := rfl

lemma outcome_define (frame : FrameRef) (name : String) (value : Value) (m : Machine) :
    outcome (define frame name value) m =
      (.ok (), { m with frames := m.frames.define frame name value }) := rfl

lemma outcome_read (target : Reference) (m : Machine) :
    outcome (read target) m = ((m.read? target).elim
      (.error (.error ⟨.undefinedVariable target.name.text, target.name.line⟩)) .ok, m) := by
  simp only [read, outcome_bind, outcome_get]
  cases m.read? target <;> rfl

lemma outcome_read_snd (target : Reference) (m : Machine) : (outcome (read target) m).2 = m := by
  rw [outcome_read]

lemma outcome_print (text : String) (line : Nat) (m : Machine) :
    outcome (print text line) m =
      (if m.output.fits (text ++ "\n").toUTF8 then .ok () else .error (.error ⟨.outputFull, line⟩),
        { m with output := m.output.write (text ++ "\n").toUTF8 }) := by
  simp only [print, outcome_bind, outcome_get, outcome_modify]
  cases m.output.fits (text ++ "\n").toUTF8 <;> rfl

lemma outcome_assign (target : Reference) (value : Value) (m : Machine) :
    outcome (assign target value) m = match m.binder? target with
      | some frame => (.ok (), { m with frames := m.frames.define frame target.name.text value })
      | none => (.error (.error ⟨.undefinedVariable target.name.text, target.name.line⟩), m) := by
  cases hb : m.binder? target <;> simp [assign, outcome_bind, hb, require, fail, define]

end Run

namespace Machine

variable {m : Machine} {target : Reference} {frame : FrameRef} {distance : Nat}

lemma binds_of_binder? (h : m.binder? target = some frame) :
    m.frames.binds frame target.name.text = true := by
  unfold binder? at h
  split at h
  · exact (Frames.binderAt?_eq_some_iff.mp h).2
  · exact Frames.binds_of_nearest? h

lemma read_of_binds (hentry : m.table[target.id]? = some distance)
    (hframe : m.frames.ancestor? m.current distance = some frame)
    (hb : m.frames.binds frame target.name.text = true) :
    ∃ value, outcome (Run.read target) m = (.ok value, m) := by
  obtain ⟨value, hvalue⟩ := Option.isSome_iff_exists.mp hb
  have hbinder : m.binder? target = some frame := by
    simp only [binder?, hentry]
    exact Frames.binderAt?_eq_some_iff.mpr ⟨hframe, hb⟩
  have hread : m.read? target = some value := by rw [read?, hbinder, Option.bind_some, hvalue]
  exact ⟨value, by rw [Run.outcome_read, hread, Option.elim_some]⟩

end Machine

end Lox
