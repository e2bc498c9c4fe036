import Lox.Eval.Evaluate
import Lox.Proofs.Machine.Methods

/-! Runs that neither see nor change what has been written: all but those that print. -/

namespace Lox

namespace Run

variable {α β : Type}

/-- On a machine with another output the run is the same, and it leaves the output as it is. -/
def Oblivious (x : Run α) : Prop :=
  ∀ (m : Machine) (output : Output),
    outcome x { m with output } = ((outcome x m).1, { (outcome x m).2 with output })

lemma Oblivious.output_eq {x : Run α} (h : Oblivious x) (m : Machine) :
    (outcome x m).2.output = m.output :=
  congrArg (·.2.output) (h m m.output)

lemma oblivious_pure (a : α) : Oblivious (pure a) :=
  fun _ _ => rfl

lemma oblivious_fail (cause : RuntimeError.Cause) (line : Nat) : Oblivious (fail cause line : Run α) :=
  fun _ _ => rfl

lemma oblivious_modify {f : Machine → Machine}
    (h : ∀ m output, f { m with output } = { f m with output }) : Oblivious (modify f) := by
  intro m output
  rw [outcome_modify, outcome_modify, h]

lemma oblivious_modifyGet {f : Machine → α × Machine}
    (h : ∀ m output, f { m with output } = ((f m).1, { (f m).2 with output })) :
    Oblivious (modifyGet f) := by
  intro m output
  rw [outcome_modifyGet, outcome_modifyGet, h]

lemma Oblivious.bind {x : Run α} {f : α → Run β} (hx : Oblivious x) (hf : ∀ a, Oblivious (f a)) :
    Oblivious (x >>= f) := by
  intro m output
  rw [outcome_bind, outcome_bind, hx]
  rcases outcome x m with ⟨_ | a, m'⟩
  · rfl
  · exact hf a m' output

lemma oblivious_get {f : Machine → Run α} (h : ∀ m output, f { m with output } = f m)
    (hf : ∀ m, Oblivious (f m)) : Oblivious (get >>= f) := by
  intro m output
  simp only [outcome_bind, outcome_get, h]
  exact hf m m output

lemma oblivious_require (found : Option α) (cause : RuntimeError.Cause) (line : Nat) :
    Oblivious (require found cause line) := by
  cases found with
  | none => exact oblivious_fail cause line
  | some value => exact oblivious_pure value

lemma oblivious_ofResult (line : Nat) (result : Except RuntimeError.Cause α) :
    Oblivious (ofResult line result) := by
  cases result with
  | error cause => exact oblivious_fail cause line
  | ok value => exact oblivious_pure value

lemma oblivious_currentFrame : Oblivious currentFrame :=
  fun _ _ => rfl

lemma oblivious_newFrame (enclosing : FrameRef) (bindings : Bindings Value) :
    Oblivious (newFrame enclosing bindings) :=
  oblivious_modifyGet fun _ _ => rfl

lemma oblivious_newFunction (closure : Closure) : Oblivious (newFunction closure) :=
  oblivious_modifyGet fun _ _ => rfl

lemma oblivious_newInstance (ref : ClassRef) : Oblivious (newInstance ref) :=
  oblivious_modifyGet fun _ _ => rfl

lemma oblivious_define (frame : FrameRef) (name : String) (value : Value) :
    Oblivious (define frame name value) :=
  oblivious_modify fun _ _ => rfl

lemma oblivious_setField (self : InstanceRef) (name : String) (value : Value) :
    Oblivious (setField self name value) :=
  oblivious_modify fun _ _ => rfl

lemma oblivious_readClock : Oblivious readClock :=
  oblivious_modifyGet fun _ _ => rfl

lemma oblivious_read (target : Reference) : Oblivious (read target) :=
  oblivious_get (fun _ _ => rfl) fun _ => oblivious_require _ _ _

lemma oblivious_assign (target : Reference) (value : Value) : Oblivious (assign target value) :=
  oblivious_get (fun _ _ => rfl) fun _ => (oblivious_require _ _ _).bind fun frame =>
    oblivious_define frame _ _

lemma oblivious_bound (method : Closure) (self : InstanceRef) : Oblivious (bound method self) :=
  (oblivious_newFrame _ _).bind fun _ => oblivious_pure _

lemma oblivious_boundValue (method : Closure) (self : InstanceRef) :
    Oblivious (boundValue method self) :=
  (oblivious_bound method self).bind fun closure => (oblivious_newFunction closure).bind fun _ =>
    oblivious_pure _

section Methods

variable (m : Machine) (output : Output)

lemma method?_output (ref : ClassRef) (name : String) :
    Machine.method? { m with output } ref name = m.method? ref name := by
  apply Machine.method?_of_classes
  rfl

lemma callable?_output (callee : Value) :
    Machine.callable? { m with output } callee = m.callable? callee := by
  cases callee with
  | classAt ref => simp only [Machine.callable?, method?_output]
  | nil | boolean | number | text | native | functionAt | instanceAt => rfl

lemma member?_output (self : InstanceRef) (name : String) :
    Machine.member? { m with output } self name = m.member? self name := by
  simp only [Machine.member?, method?_output]
  rfl

lemma textOf_output (value : Value) :
    Machine.textOf { m with output } value = m.textOf value := by
  cases value with
  | boolean given => cases given <;> rfl
  | nil | number | text | native | functionAt | classAt | instanceAt => rfl

end Methods

lemma oblivious_getProperty (object : Value) (property : Name) :
    Oblivious (getProperty object property) := by
  cases object with
  | instanceAt self =>
    refine oblivious_get (fun m output => by rw [member?_output]) fun m =>
      (oblivious_require _ _ _).bind fun member => ?_
    cases member with
    | field value => exact oblivious_pure value
    | method closure => exact oblivious_boundValue closure self
  | nil | boolean | number | text | native | functionAt | classAt => exact oblivious_fail _ _

lemma oblivious_getSuper (keyword : Reference) (method : Name) :
    Oblivious (getSuper keyword method) := by
  refine oblivious_get (fun m output => ?_) fun m => (oblivious_require _ _ _).bind
    fun (superclass, self) => (oblivious_require _ _ _).bind fun found =>
      oblivious_boundValue found self
  simp only [method?_output]
  rfl

lemma oblivious_superclassOf (target : Reference) : Oblivious (superclassOf target) := by
  refine (oblivious_read target).bind fun value => ?_
  cases value with
  | classAt ref => exact oblivious_pure ref
  | nil | boolean | number | text | native | functionAt | instanceAt => exact oblivious_fail _ _

lemma oblivious_declareFunction (decl : FunctionDecl) : Oblivious (declareFunction decl) :=
  oblivious_currentFrame.bind fun _ => (oblivious_newFunction _).bind fun _ =>
    oblivious_define _ _ _

lemma oblivious_makeClass (decl : ClassDecl) (superclass : Option ClassRef) (scope : FrameRef) :
    Oblivious (makeClass decl superclass scope) :=
  oblivious_modifyGet fun _ _ => rfl

lemma oblivious_declareClass (decl : ClassDecl) : Oblivious (declareClass decl) := by
  rw [declareClass_eq]
  have hparent : Oblivious (decl.superclass.mapM superclassOf) := by
    cases decl.superclass with
    | none => exact oblivious_pure none
    | some target =>
      simp only [Option.mapM_some, ← bind_pure_comp]
      exact (oblivious_superclassOf target).bind fun _ => oblivious_pure _
  refine hparent.bind fun superclass => oblivious_currentFrame.bind fun frame =>
    (oblivious_define _ _ _).bind fun _ => ?_
  have hrest (scope : FrameRef) : Oblivious (makeClass decl superclass scope >>= fun ref =>
      define frame decl.name.text (.classAt ref)) :=
    (oblivious_makeClass decl superclass scope).bind fun _ => oblivious_define _ _ _
  cases superclass with
  | none => exact (oblivious_pure frame).bind hrest
  | some ref => exact (oblivious_newFrame _ _).bind hrest

end Run

end Lox
