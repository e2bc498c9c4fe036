import Lox.Proofs.Log.Keeps
import Lox.Proofs.Machine.Methods

/-! Whatever is run from a sound log leaves it sound, by induction on the fuel: calls, binding and blocks work
in frames of their own, and only a declaration gives the current frame a name. -/

namespace Lox

namespace Log.Fits

variable {given : String → Prop} {t : Log}

lemma method? (h : t.Fits given) {ref : ClassRef} {name : String} {method : Closure}
    (hm : t.machine.method? ref name = some method) : method.decl.Formed given := by
  obtain ⟨owner, hfinds⟩ := Machine.finds_of_methodAmong? hm
  clear hm
  induction hfinds with
  | own htype hown => exact h.methods _ (Array.mem_of_getElem? htype) _ _ hown
  | above _ _ _ _ ih => exact ih

lemma member? (h : t.Fits given) {self : InstanceRef} {name : String} {method : Closure}
    (hm : t.machine.member? self name = some (.method method)) : method.decl.Formed given := by
  obtain ⟨found, -, hmember⟩ := Option.bind_eq_some_iff.mp hm
  cases hfield : found.fields.get? name with
  | some value => simp [hfield] at hmember
  | none =>
    rw [hfield, Option.map_none, Option.none_or] at hmember
    obtain ⟨found', hmethod, hsame⟩ := Option.map_eq_some_iff.mp hmember
    obtain rfl := Member.method.inj hsame
    exact h.method? hmethod

lemma callable? (h : t.Fits given) {callee : Value} {callable : Callable}
    (hc : t.machine.callable? callee = some callable) :
    (∀ closure, callable = .function closure → closure.Logged given t.entries) ∧
      ∀ ref method, callable = .construct ref (some method) → method.decl.Formed given := by
  cases callee with
  | functionAt ref =>
    obtain ⟨closure, hclosure, rfl⟩ := Option.map_eq_some_iff.mp hc
    refine ⟨?_, by simp⟩
    rintro _ ⟨⟩
    exact h.functions closure (Array.mem_of_getElem? hclosure)
  | classAt ref =>
    obtain rfl := Option.some.inj hc
    refine ⟨by simp, fun ref' method heq => ?_⟩
    exact h.method? (Callable.construct.inj heq).2
  | native primitive =>
    obtain rfl := Option.some.inj hc
    simp
  | nil | boolean | number | text | instanceAt => simp [Machine.callable?] at hc

end Log.Fits

namespace Run

lemma outcome_superclassOf (superclass : Option Reference) (m : Machine) :
    (outcome (superclass.mapM superclassOf) m).2 = m := by
  cases superclass with
  | none => rfl
  | some target =>
    have hread := outcome_read_snd target m
    change (outcome (some <$> superclassOf target) m).2 = m
    rw [outcome_map, superclassOf, outcome_bind]
    rcases hr : outcome (read target) m with ⟨_ | value, m'⟩ <;> rw [hr] at hread
    · exact hread
    · cases value <;> exact hread

end Run

def Stmt.freeFrame (stated : Stmt) (current : FrameRef) : Option FrameRef :=
  if stated.isDeclaration then some current else none

namespace LoggedRun

variable {α : Type} {given : String → Prop} {free : Option FrameRef} {t : Log}

/-- Expressions keep logs sound, and give no frame a name. -/
def EvaluatesSoundly (given : String → Prop) (run : Expr → LoggedRun Value) (run' : Expr → Run Value) :
    Prop :=
  ∀ (t : Log) (value : Expr), t.Sound given → value.Formed given →
    Keeps given none t (run value) (run' value) fun _ _ => True

/-- Statements keep logs sound, and give names to the current frame at most. -/
def ExecutesSoundly (given : String → Prop) (run : Stmt → LoggedRun Completion)
    (run' : Stmt → Run Completion) : Prop :=
  ∀ (t : Log) (stated : Stmt), t.Sound given → stated.Formed given →
    Keeps given (stated.freeFrame t.machine.current) t (run stated) (run' stated) fun _ _ => True

lemma Keeps.of_free {stated : Stmt} {x : LoggedRun α} {y : Run α} {post : α → Log → Prop}
    (h : Keeps given (stated.freeFrame t.machine.current) t x y post) :
    Keeps given (some t.machine.current) t x y post := by
  unfold Stmt.freeFrame at h
  split at h
  · exact h
  · exact h.of_none

section Steps

lemma newFrameFor_keeps (ht : t.Sound given) (enclosing : FrameRef) {name : String} {value : Value}
    (hs : Log.Special name value) :
    Keeps given free t (newFrameFor enclosing name value)
      (Run.newFrame enclosing ((∅ : Bindings Value).insert name value))
      fun frame t' => .makes frame name value ∈ t'.entries := by
  have hmade := ht.append (ht.fits.makes enclosing hs) (by simp) (by simp)
  refine ⟨rfl, hmade, ⟨Frames.spares_push _ _, rfl, List.subset_append_left .., ?_⟩, ?_⟩
  · intro frame n v hm
    rcases List.mem_append.mp hm with hm | hm
    · exact .inl hm
    · obtain ⟨rfl, -, -⟩ := Entry.makes.inj (List.mem_singleton.mp hm)
      exact .inr (Nat.le_refl _)
  · intro frame hframe
    rw [← Except.ok.inj hframe]
    exact List.mem_append_right _ (List.mem_singleton_self _)

lemma newFunction_keeps (ht : t.Sound given) {closure : Closure} (hc : closure.Logged given t.entries) :
    Keeps given free t (lift (Run.newFunction closure)) (Run.newFunction closure) fun _ _ => True :=
  keeps_lift (ht.setMachine (ht.fits.newFunction hc)) (.refl free _) rfl fun _ _ => trivial

lemma currentFrame_keeps (ht : t.Sound given) :
    Keeps given free t (lift Run.currentFrame) Run.currentFrame
      fun frame t' => frame = t.machine.current ∧ t' = t :=
  keeps_lift ht (.refl _ _) rfl fun _ hframe => ⟨(Except.ok.inj hframe).symm, rfl⟩

lemma define_keeps (ht : t.Sound given) (name : String) (value : Value) :
    Keeps given (some t.machine.current) t (lift (Run.define t.machine.current name value))
      (Run.define t.machine.current name value) fun _ _ => True :=
  keeps_lift (ht.setMachine (ht.fits.define name value)) (Frames.spares_define value) rfl
    fun _ _ => trivial

lemma assign_keeps (ht : t.Sound given) {target : Reference} (hn : given target.name.text)
    (value : Value) :
    Keeps given free t (lift (Run.assign target value)) (Run.assign target value) fun _ _ => True := by
  have hrun := Run.outcome_assign target value t.machine
  cases hb : t.machine.binder? target with
  | none =>
    rw [hb] at hrun
    refine keeps_lift ?_ ?_ ?_ fun _ _ => trivial <;> rw [hrun]
    · exact ht
    · exact .refl free _
  | some frame =>
    rw [hb] at hrun
    have hbinds := Machine.binds_of_binder? hb
    refine keeps_lift ?_ ?_ ?_ fun _ _ => trivial <;> rw [hrun]
    · exact ht.setMachine (ht.fits.redefine hbinds hn value)
    · exact Frames.spares_redefine hbinds value

lemma read_keeps (ht : t.Sound given) (target : Reference) :
    Keeps given free t (lift (Run.read target)) (Run.read target) fun _ _ => True := by
  refine keeps_aside ht ⟨t.machine.output, t.machine.instances, t.machine.clock, ?_⟩
  exact Run.outcome_read_snd target t.machine

lemma superclassOf_keeps (ht : t.Sound given) (superclass : Option Reference) :
    Keeps given free t (lift (superclass.mapM Run.superclassOf)) (superclass.mapM Run.superclassOf)
      fun _ _ => True := by
  refine keeps_aside ht ⟨t.machine.output, t.machine.instances, t.machine.clock, ?_⟩
  exact Run.outcome_superclassOf superclass t.machine

lemma print_keeps (ht : t.Sound given) (text : String) (line : Nat) :
    Keeps given free t (lift (Run.print text line)) (Run.print text line) fun _ _ => True := by
  refine keeps_aside ht ⟨t.machine.output.write (text ++ "\n").toUTF8, t.machine.instances,
    t.machine.clock, ?_⟩
  simp only [Run.print, outcome_bind, outcome_get, outcome_modify]
  split <;> rfl

lemma ofResult_keeps (ht : t.Sound given) (line : Nat) (result : Except RuntimeError.Cause Value) :
    Keeps given free t (lift (Run.ofResult line result)) (Run.ofResult line result)
      fun _ _ => True := by
  refine keeps_aside ht ⟨t.machine.output, t.machine.instances, t.machine.clock, ?_⟩
  cases result <;> rfl

end Steps

section Calls

lemma bound_keeps (ht : t.Sound given) {method : Closure} (hm : method.decl.Formed given)
    (self : InstanceRef) :
    Keeps given free t (bound method self) (Run.bound method self)
      fun closure t' => closure.Logged given t'.entries :=
  (newFrameFor_keeps ht method.scope (.this self)).yield
    fun _ _ _ _ hmade => ⟨hm, fun _ => ⟨self, hmade⟩⟩

lemma boundValue_keeps (ht : t.Sound given) {method : Closure} (hm : method.decl.Formed given)
    (self : InstanceRef) :
    Keeps given free t (boundValue method self) (Run.boundValue method self) fun _ _ => True :=
  (bound_keeps ht hm self).bind fun _ _ _ ht' hclosure =>
    (newFunction_keeps ht' hclosure).yield fun _ _ _ _ _ => trivial

lemma evaluateEach_keeps {run : Expr → LoggedRun Value} {run' : Expr → Run Value}
    (h : EvaluatesSoundly given run run') (ht : t.Sound given) {values : List Expr}
    (hf : Expr.FormedAll given values) :
    Keeps given none t (evaluateEach run values) (Run.evaluateEach run' values) fun _ _ => True := by
  induction values generalizing t with
  | nil => exact keeps_pure ht trivial
  | cons value rest ih =>
    exact (h t value ht hf.1).bind fun _ _ _ ht' _ => (ih ht' hf.2).yield fun _ _ _ _ _ => trivial

variable {run : Stmt → LoggedRun Completion} {run' : Stmt → Run Completion}

lemma sequence_keeps (h : ExecutesSoundly given run run') (ht : t.Sound given) {body : List Stmt}
    (hf : Stmt.FormedAll given body) :
    Keeps given (some t.machine.current) t (sequence run body) (Run.sequence run' body)
      fun _ _ => True := by
  induction body generalizing t with
  | nil => exact keeps_pure ht trivial
  | cons stated rest ih =>
    refine (h t stated ht hf.1).of_free.bind fun completion t' hgoes ht' _ => ?_
    rw [← hgoes.current]
    cases completion with
    | normal => exact ih ht' hf.2
    | returned value => exact keeps_pure ht' trivial

/-- When the body is done, the frame of an initializer still binds its instance. -/
lemma invoke_keeps (h : ExecutesSoundly given run run') (ht : t.Sound given) {closure : Closure}
    (hc : closure.Logged given t.entries) (arguments : List Value) :
    Keeps given none t (invoke run closure arguments) (Run.invoke run' closure arguments)
      fun _ _ => True := by
  have hbody := Keeps.inFrame ht closure.scope ((∅ : Bindings Value).insertAll
      ((closure.decl.params.map Name.text).zip arguments)) fun t' ht' =>
    sequence_keeps h ht' (FunctionDecl.formed_iff.mp hc.formed).2.2
  unfold invoke Run.invoke
  dsimp only
  rw [← bind_assoc, ← bind_assoc]
  refine hbody.bind fun completion t' hgoes ht' _ => ?_
  split
  · rename_i hi
    obtain ⟨self, hmade⟩ := (hc.mono hgoes.entries).bound hi
    obtain ⟨found, hfound, hself⟩ := (ht'.fits.made _ _ _ hmade).2.lookup?
    refine keeps_get ?_
    rw [hfound]
    refine Keeps.logged rfl (by simp) (keeps_pure (ht'.append (ht'.fits.append (by simp)) (by simp) ?_)
      trivial)
    rintro _ _ _ ⟨⟩ -
    exact ⟨self, found, hmade, rfl, rfl, hself⟩
  · rename_i hi
    refine Keeps.logged rfl (by simp) (keeps_pure (ht'.append (ht'.fits.append (by simp)) (by simp) ?_)
      trivial)
    rintro _ _ _ ⟨⟩ hi'
    exact absurd hi' hi

lemma call_keeps (h : ExecutesSoundly given run run') (ht : t.Sound given) {callable : Callable}
    (hfunction : ∀ closure, callable = .function closure → closure.Logged given t.entries)
    (hmethod : ∀ ref method, callable = .construct ref (some method) → method.decl.Formed given)
    (arguments : List Value) :
    Keeps given none t (call run callable arguments) (Run.call run' callable arguments)
      fun _ _ => True := by
  cases callable with
  | native primitive =>
    cases primitive
    have hclock : Keeps given none t (lift Run.readClock) Run.readClock fun _ _ => True :=
      keeps_aside ht ⟨t.machine.output, t.machine.instances, _, rfl⟩
    rw [call, Run.call, ← bind_pure_comp, ← bind_pure_comp]
    exact hclock.yield fun _ _ _ _ _ => trivial
  | function closure => exact invoke_keeps h ht (hfunction closure rfl) arguments
  | construct ref initializer =>
    have hmade : Keeps given none t (lift (Run.newInstance ref)) (Run.newInstance ref)
        fun _ _ => True :=
      keeps_aside ht ⟨t.machine.output, _, t.machine.clock, rfl⟩
    refine hmade.bind fun self t' _ ht' _ => ?_
    cases initializer with
    | none => exact keeps_pure ht' trivial
    | some method =>
      refine (bound_keeps ht' (hmethod ref method rfl) self).bind fun closure t'' _ ht'' hclosure => ?_
      exact (invoke_keeps h ht'' hclosure arguments).yield fun _ _ _ _ _ => trivial

lemma callValue_keeps (h : ExecutesSoundly given run run') (ht : t.Sound given) (callee : Value)
    (arguments : List Value) (line : Nat) :
    Keeps given none t (callValue run callee arguments line) (Run.callValue run' callee arguments line)
      fun _ _ => True := by
  refine keeps_get (keeps_require ht fun callable hcallable => .ite ?_ (keeps_fail ht _ _))
  obtain ⟨hfunction, hmethod⟩ := ht.fits.callable? hcallable
  exact call_keeps h ht hfunction hmethod arguments

end Calls

lemma getProperty_keeps (ht : t.Sound given) (object : Value) (property : Name) :
    Keeps given none t (getProperty object property) (Run.getProperty object property)
      fun _ _ => True := by
  cases object with
  | instanceAt self =>
    refine keeps_get (keeps_require ht fun member hmember => ?_)
    cases member with
    | field value => exact keeps_pure ht trivial
    | method method => exact boundValue_keeps ht (ht.fits.member? hmember) self
  | nil | boolean | number | text | native | functionAt | classAt => exact keeps_fail ht _ _

lemma getSuper_keeps (ht : t.Sound given) (keyword : Reference) (method : Name) :
    Keeps given none t (getSuper keyword method) (Run.getSuper keyword method) fun _ _ => True :=
  keeps_get (keeps_require ht fun (_, self) _ => keeps_require ht fun _ hfound =>
    boundValue_keeps ht (ht.fits.method? hfound) self)

lemma declareFunction_keeps (ht : t.Sound given) {decl : FunctionDecl} (hd : decl.Formed given) :
    Keeps given (some t.machine.current) t (lift (Run.declareFunction decl)) (Run.declareFunction decl)
      fun _ _ => True := by
  have hclosure : Closure.Logged given t.entries ⟨decl, t.machine.current, false⟩ := ⟨hd, by simp⟩
  have hmade := ht.fits.newFunction hclosure
  exact keeps_lift (ht.setMachine (hmade.define decl.name.text (.functionAt ⟨t.machine.functions.size⟩)))
    (Frames.spares_define _) rfl fun _ _ => trivial

lemma makeClass_keeps (ht : t.Sound given) {decl : ClassDecl} (hd : decl.Formed given)
    (superclass : Option ClassRef) (scope : FrameRef) :
    Keeps given free t (lift (Run.makeClass decl superclass scope)) (Run.makeClass decl superclass scope)
      fun _ _ => True := by
  refine keeps_lift (ht.setMachine (ht.fits.newClass fun name method hmethod => ?_)) (.refl free _) rfl
    fun _ _ => trivial
  rcases Bindings.get?_insertAll_eq_some hmethod with hmethod | hmethod
  · simp at hmethod
  · obtain ⟨declared, hdeclared, hentry⟩ := List.mem_map.mp hmethod
    obtain ⟨-, rfl⟩ := Prod.mk.inj hentry
    exact (ClassDecl.formed_iff.mp hd).2 declared hdeclared

/-- What can fail is over before the name is declared. -/
lemma declareClass_keeps (ht : t.Sound given) {decl : ClassDecl} (hd : decl.Formed given) :
    Keeps given (some t.machine.current) t (declareClass decl) (Run.declareClass decl)
      fun _ _ => True := by
  rw [Run.declareClass_eq]
  refine (superclassOf_keeps ht decl.superclass).bind fun superclass t₁ hgoes₁ ht₁ _ => ?_
  rw [← hgoes₁.current]
  -- The current frame is named by now, and the steps are those that make the class.
  have hrest (t' : Log) (hcurrent : t'.machine.current = t₁.machine.current) (ht' : t'.Sound given)
      (scope : FrameRef) : Keeps given (some t₁.machine.current) t'
        (lift (Run.makeClass decl superclass scope) >>= fun ref =>
          lift (Run.define t₁.machine.current decl.name.text (.classAt ref)))
        (Run.makeClass decl superclass scope >>= fun ref =>
          Run.define t₁.machine.current decl.name.text (.classAt ref)) fun _ _ => True := by
    refine (makeClass_keeps ht' hd superclass scope).bind fun ref t'' hgoes ht'' _ => ?_
    rw [← hcurrent, ← hgoes.current]
    exact define_keeps ht'' decl.name.text (.classAt ref)
  refine (currentFrame_keeps ht₁).bind fun frame t₂ _ _ hframe => ?_
  obtain ⟨rfl, rfl⟩ := hframe
  refine (define_keeps ht₁ decl.name.text .nil).bind fun _ t₂ hgoes₂ ht₂ _ => ?_
  cases superclass with
  | none => exact hrest t₂ hgoes₂.current ht₂ _
  | some ref =>
    exact (newFrameFor_keeps ht₂ _ (.super ref)).bind
      fun scope t₃ hgoes₃ ht₃ _ => hrest t₃ (hgoes₃.current.trans hgoes₂.current) ht₃ scope

lemma option_keeps {run : Expr → LoggedRun Value} {run' : Expr → Run Value}
    (h : EvaluatesSoundly given run run') (ht : t.Sound given) {value : Option Expr}
    (hf : Expr.FormedOption given value) :
    Keeps given none t (value.elim (pure .nil) run) (value.elim (pure .nil) run') fun _ _ => True := by
  cases value with
  | none => exact keeps_pure ht trivial
  | some value => exact h t value ht (hf value rfl)

section Evaluation

/-- With so much fuel, whatever is run keeps logs sound. -/
structure Soundly (given : String → Prop) (fuel : Nat) : Prop where
  evaluate : EvaluatesSoundly given (LoggedRun.evaluate fuel) (Lox.evaluate fuel)
  execute : ExecutesSoundly given (LoggedRun.execute fuel) (Lox.execute fuel)

variable {fuel : Nat}

lemma evaluate_keeps (ih : Soundly given fuel) :
    EvaluatesSoundly given (LoggedRun.evaluate (fuel + 1)) (Lox.evaluate (fuel + 1)) := by
  intro t value ht hf
  refine Keeps.noted ht fun t₁ _ ht₁ => ?_
  cases value with
  | literal value => exact keeps_pure ht₁ trivial
  | grouping inner => exact ih.evaluate t₁ inner ht₁ hf
  | unary op line operand =>
    exact (ih.evaluate t₁ operand ht₁ hf).bind fun _ _ _ ht₂ _ => ofResult_keeps ht₂ _ _
  | binary op line left right =>
    exact (ih.evaluate t₁ left ht₁ hf.1).bind fun _ t₂ _ ht₂ _ =>
      (ih.evaluate t₂ right ht₂ hf.2).bind fun _ _ _ ht₃ _ => ofResult_keeps ht₃ _ _
  | logical op line left right =>
    exact (ih.evaluate t₁ left ht₁ hf.1).bind fun _ t₂ _ ht₂ _ =>
      .ite (keeps_pure ht₂ trivial) (ih.evaluate t₂ right ht₂ hf.2)
  | read target | this target => exact read_keeps ht₁ target
  | assign target value =>
    exact (ih.evaluate t₁ value ht₁ hf.2).bind fun value _ _ ht₂ _ =>
      (assign_keeps ht₂ hf.1 value).yield fun _ _ _ _ _ => trivial
  | call callee arguments line =>
    refine (ih.evaluate t₁ callee ht₁ hf.1).bind fun callee t₂ _ ht₂ _ => ?_
    refine (evaluateEach_keeps ih.evaluate ht₂ hf.2).bind fun given t₃ _ ht₃ _ => ?_
    exact callValue_keeps ih.execute ht₃ callee given line
  | get object property =>
    exact (ih.evaluate t₁ object ht₁ hf).bind fun object _ _ ht₂ _ =>
      getProperty_keeps ht₂ object property
  | set object property value =>
    refine (ih.evaluate t₁ object ht₁ hf.1).bind fun object t₂ _ ht₂ _ => ?_
    cases object with
    | instanceAt self =>
      refine (ih.evaluate t₂ value ht₂ hf.2).bind fun value t₃ _ ht₃ _ => ?_
      have hset : Keeps given none t₃ (lift (Run.setField self property.text value))
          (Run.setField self property.text value) fun _ _ => True :=
        keeps_aside ht₃ ⟨t₃.machine.output, _, t₃.machine.clock, rfl⟩
      exact hset.yield fun _ _ _ _ _ => trivial
    | nil | boolean | number | text | native | functionAt | classAt => exact keeps_fail ht₂ _ _
  | super keyword method => exact getSuper_keeps ht₁ keyword method

lemma execute_keeps (ih : Soundly given fuel) :
    ExecutesSoundly given (LoggedRun.execute (fuel + 1)) (Lox.execute (fuel + 1)) := by
  intro t stated ht hf
  -- What is a branch is no declaration, so it leaves the current frame its names.
  have hbranch {t' : Log} {branch : Stmt} (ht' : t'.Sound given) (hd : branch.isDeclaration = false)
      (hb : branch.Formed given) : Keeps given none t' (LoggedRun.execute fuel branch)
        (Lox.execute fuel branch) fun _ _ => True := by
    have hrun := ih.execute t' branch ht' hb
    rwa [Stmt.freeFrame, hd] at hrun
  refine Keeps.noted ht fun t₁ hmachine ht₁ => ?_
  rw [← hmachine]
  cases stated with
  | expression value => exact (ih.evaluate t₁ value ht₁ hf).yield fun _ _ _ _ _ => trivial
  | print line value =>
    exact (ih.evaluate t₁ value ht₁ hf).bind fun _ _ _ ht₂ _ =>
      keeps_get ((print_keeps ht₂ _ _).yield fun _ _ _ _ _ => trivial)
  | varDecl name initial =>
    refine (option_keeps ih.evaluate ht₁ hf.2).of_none.bind fun value t₂ hgoes ht₂ _ => ?_
    refine (currentFrame_keeps ht₂).bind fun frame t₃ _ _ hframe => ?_
    obtain ⟨rfl, rfl⟩ := hframe
    rw [← hgoes.current]
    exact (define_keeps ht₂ name.text value).yield fun _ _ _ _ _ => trivial
  | functionDecl decl => exact (declareFunction_keeps ht₁ hf).yield fun _ _ _ _ _ => trivial
  | classDecl decl => exact (declareClass_keeps ht₁ hf).yield fun _ _ _ _ _ => trivial
  | block body =>
    refine (currentFrame_keeps ht₁).bind fun frame t₂ _ _ hframe => ?_
    obtain ⟨rfl, rfl⟩ := hframe
    exact Keeps.inFrame ht₁ _ ∅ fun _ ht₂ => sequence_keeps ih.execute ht₂ hf
  | ifElse condition thenBranch elseBranch =>
    cases elseBranch with
    | none =>
      obtain ⟨hcondition, hd, hthen⟩ := hf
      exact (ih.evaluate t₁ condition ht₁ hcondition).bind fun _ _ _ ht₂ _ =>
        .ite (hbranch ht₂ hd hthen) (keeps_pure ht₂ trivial)
    | some elseBranch =>
      obtain ⟨hcondition, ⟨hd, hthen⟩, hd', helse⟩ := hf
      exact (ih.evaluate t₁ condition ht₁ hcondition).bind fun _ _ _ ht₂ _ =>
        .ite (hbranch ht₂ hd hthen) (hbranch ht₂ hd' helse)
  | whileLoop condition body =>
    obtain ⟨hcondition, hd, hbody⟩ := hf
    refine (ih.evaluate t₁ condition ht₁ hcondition).bind fun _ t₂ _ ht₂ _ =>
      .ite ?_ (keeps_pure ht₂ trivial)
    refine (hbranch ht₂ hd hbody).bind fun completion t₃ _ ht₃ _ => ?_
    cases completion with
    | normal =>
      have hloop : (Stmt.whileLoop condition body).Formed given := ⟨hcondition, hd, hbody⟩
      exact hbranch ht₃ rfl hloop
    | returned value => exact keeps_pure ht₃ trivial
  | ret keyword value => exact (option_keeps ih.evaluate ht₁ hf).yield fun _ _ _ _ _ => trivial

lemma soundly (given : String → Prop) (fuel : Nat) : Soundly given fuel := by
  induction fuel with
  | zero => exact ⟨fun _ _ ht _ => keeps_throw ht _, fun _ _ ht _ => keeps_throw ht _⟩
  | succ fuel ih => exact ⟨evaluate_keeps ih, execute_keeps ih⟩

lemma executeProgram_keeps (ht : t.Sound given) (fuel : Nat) {program : Program}
    (hf : Stmt.FormedAll given program) :
    Keeps given (some t.machine.current) t (executeProgram fuel program) (Program.execute fuel program)
      fun _ _ => True := by
  induction program generalizing t with
  | nil => exact keeps_pure ht trivial
  | cons stated rest ih =>
    refine ((soundly given fuel).execute t stated ht hf.1).of_free.bind
      fun completion t' hgoes ht' _ => ?_
    rw [← hgoes.current]
    exact ih ht' hf.2

end Evaluation

end LoggedRun

end Lox
