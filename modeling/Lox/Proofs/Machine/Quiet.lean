import Lox.Eval.Evaluate
import Lox.Proofs.Machine.Steps

/-! Runs that change nothing on a machine on which resolution depends: they make frames and bind names
again, but give no frame a new name, and make neither functions nor classes. -/

namespace Lox

/-- The steps change the machine in its frames alone, and what they print and the like. -/
structure Machine.Steps (free : Option FrameRef) (m m' : Machine) : Prop where
  frames : Frames.Follows free m.frames m'.frames
  functions : m'.functions = m.functions
  classes : m'.classes = m.classes
  current : m'.current = m.current
  table : m'.table = m.table

lemma Machine.Steps.trans {free : Option FrameRef} {m m' m'' : Machine} (h : m.Steps free m')
    (h' : m'.Steps free m'') : m.Steps free m'' :=
  ⟨h.frames.trans h'.frames, h'.functions.trans h.functions, h'.classes.trans h.classes,
    h'.current.trans h.current, h'.table.trans h.table⟩

lemma Machine.Steps.of_none {free : Option FrameRef} {m m' : Machine} (h : m.Steps none m') :
    m.Steps free m' :=
  ⟨h.frames.of_none, h.functions, h.classes, h.current, h.table⟩

namespace Run

variable {α β : Type}

def Quiet (x : Run α) : Prop :=
  ∀ m : Machine, m.Steps none (outcome x m).2

lemma quiet_of_frames {x : Run α}
    (h : ∀ m, ∃ output instances clock, (outcome x m).2 = { m with output, instances, clock }) :
    Quiet x := by
  intro m
  obtain ⟨output, instances, clock, hm⟩ := h m
  rw [hm]
  exact ⟨.refl none m.frames, rfl, rfl, rfl, rfl⟩

lemma quiet_pure (a : α) : Quiet (pure a) :=
  quiet_of_frames fun m => ⟨m.output, m.instances, m.clock, rfl⟩

lemma quiet_fail (cause : RuntimeError.Cause) (line : Nat) :
    Quiet (fail cause line : Run α) :=
  quiet_of_frames fun m => ⟨m.output, m.instances, m.clock, rfl⟩

lemma Quiet.bind {x : Run α} {f : α → Run β} (hx : Quiet x) (hf : ∀ a, Quiet (f a)) :
    Quiet (x >>= f) := by
  intro m
  have hfirst := hx m
  rw [outcome_bind]
  rcases ho : outcome x m with ⟨_ | a, m'⟩ <;> rw [ho] at hfirst
  · exact hfirst
  · exact hfirst.trans (hf a m')

lemma quiet_get {f : Machine → Run α} (hf : ∀ m, Quiet (f m)) : Quiet (get >>= f) := by
  intro m
  rw [outcome_bind, outcome_get]
  exact hf m m

lemma quiet_require (result : Option α) (cause : RuntimeError.Cause) (line : Nat) :
    Quiet (require result cause line) := by
  cases result with
  | none => exact quiet_fail cause line
  | some value => exact quiet_pure value

lemma quiet_ofResult (line : Nat) (result : Except RuntimeError.Cause α) :
    Quiet (ofResult line result) := by
  cases result with
  | error cause => exact quiet_fail cause line
  | ok value => exact quiet_pure value

lemma quiet_readClock : Quiet readClock :=
  quiet_of_frames fun m => ⟨m.output, m.instances, _, rfl⟩

lemma quiet_newInstance (ref : ClassRef) : Quiet (newInstance ref) :=
  quiet_of_frames fun m => ⟨m.output, _, m.clock, rfl⟩

lemma quiet_setField (self : InstanceRef) (name : String) (value : Value) :
    Quiet (setField self name value) :=
  quiet_of_frames fun m => ⟨m.output, _, m.clock, rfl⟩

lemma quiet_print (text : String) (line : Nat) : Quiet (print text line) := by
  refine quiet_get fun m => Quiet.bind (quiet_of_frames fun m => ⟨_, m.instances, m.clock, rfl⟩)
    fun _ => ?_
  split
  · exact quiet_fail _ _
  · exact quiet_pure _

lemma quiet_read (target : Reference) : Quiet (read target) :=
  quiet_get fun _ => quiet_require _ _ _

lemma quiet_superclassOf (target : Reference) : Quiet (superclassOf target) := by
  refine (quiet_read target).bind fun value => ?_
  cases value with
  | classAt ref => exact quiet_pure ref
  | nil | boolean | number | text | native | functionAt | instanceAt => exact quiet_fail _ _

lemma quiet_newFrame (enclosing : FrameRef) (bindings : Bindings Value) :
    Quiet (newFrame enclosing bindings) :=
  fun _ => ⟨Frames.follows_push enclosing bindings, rfl, rfl, rfl, rfl⟩

lemma quiet_assign {target : Reference} (hn : Scope.IsPlain target.name.text) (value : Value) :
    Quiet (assign target value) := by
  intro m
  rw [outcome_assign]
  cases hb : m.binder? target with
  | none => exact ⟨.refl none m.frames, rfl, rfl, rfl, rfl⟩
  | some frame =>
    exact ⟨Frames.follows_redefine hn (Machine.binds_of_binder? hb) value, rfl, rfl, rfl, rfl⟩

end Run

end Lox
