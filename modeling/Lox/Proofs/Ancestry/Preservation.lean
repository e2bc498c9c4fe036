import Lox.Proofs.Ancestry.Chains
import Lox.Proofs.Ancestry.Evaluate
import Lox.Proofs.Machine.Closing
import Lox.Proofs.Machine.Quiet

/-! On every machine that is passed each class is what its declaration makes, by induction on the fuel. -/

namespace Lox

namespace Machine.Declared

variable {m m' : Machine} {decls : Array ClassDecl}

lemma of_eq (h : m.Declared decls) (hclasses : m'.classes = m.classes) : m'.Declared decls := by
  intro ref type htype
  rw [class?, hclasses] at htype
  exact h ref type htype

lemma append (h : m.Declared decls) (decl : ClassDecl) : m.Declared (decls.push decl) := by
  intro ref type htype
  obtain ⟨found, hfound, hof⟩ := h ref type htype
  have hlt := (Array.getElem?_eq_some_iff.mp hfound).1
  exact ⟨found, by rw [Array.getElem?_push_lt hlt, Array.getElem_eq_iff.mpr hfound], hof⟩

end Machine.Declared

lemma Class.isOf (decl : ClassDecl) (superclass : Option ClassRef) (scope : FrameRef) :
    Class.IsOf
      { name := decl.name.text
        superclass
        methods := (∅ : Bindings Closure).insertAll
          (decl.methods.map fun method => (method.name.text, ⟨method, scope, method.isInitializer⟩)) }
      decl where
  name := rfl
  methods name := by
    rw [Bindings.get?_insertAll decl.methods (·.name.text)
      (fun method => (⟨method, scope, method.isInitializer⟩ : Closure)), Option.map_map]
    exact Option.map_id'

namespace Passage

/-- Every machine that is reached is closed, and its classes are what their declarations make. -/
structure Sound (t : Passage) : Prop where
  size : t.decls.size = t.machine.classes.size
  reached : ∀ m, t.Reached m → m.Closed ∧ m.Declared t.decls

namespace Sound

variable {t : Passage} (h : t.Sound)

include h

lemma closed : t.machine.Closed :=
  (h.reached t.machine (.inl rfl)).1

lemma goTo {m : Machine} (hm : m.Closed) (hclasses : m.classes = t.machine.classes) :
    (t.goTo m).Sound where
  size := h.size.trans (congrArg Array.size hclasses.symm)
  reached other hother := by
    rcases hother with rfl | hother
    · exact ⟨hm, (h.reached t.machine (.inl rfl)).2.of_eq hclasses⟩
    · exact h.reached other (List.mem_cons.mp hother)

lemma declare {decl : ClassDecl} {m : Machine} {type : Class} (hm : m.Closed)
    (hclasses : m.classes = t.machine.classes.push type) (hof : type.IsOf decl) :
    Passage.Sound ⟨m, t.machine :: t.passed, t.decls.push decl⟩ where
  size := by simp [hclasses, h.size]
  reached other hother := by
    rcases hother with rfl | hother
    · -- A class of the new machine is the one just made, or one that there was.
      refine ⟨hm, fun ref made hmade => ?_⟩
      rw [Machine.class?, hclasses, Array.getElem?_push] at hmade
      split at hmade
      · rename_i hlast
        refine ⟨decl, ?_, Option.some.inj hmade ▸ hof⟩
        rw [hlast, ← h.size, Array.getElem?_push_size]
      · exact (h.reached t.machine (.inl rfl)).2.append decl ref made hmade
    · obtain ⟨hclosed, hdeclared⟩ := h.reached other (List.mem_cons.mp hother)
      exact ⟨hclosed, hdeclared.append decl⟩

end Sound

end Passage

namespace PassingRun

open Run

variable {α β : Type} {t : Passage}

/-- The run does on the machine what the one with a record of the way does, and on that way the machines
are sound. -/
structure Keeps (t : Passage) (x : PassingRun α) (y : Run α) : Prop where
  erases : outcome y t.machine = ((outcome x t).1, (outcome x t).2.machine)
  sound : (outcome x t).2.Sound

section Rules

variable {x : PassingRun α} {y : Run α} {post : α → Machine → Prop}

lemma keeps_pure (ht : t.Sound) (a : α) : Keeps t (pure a) (pure a) :=
  ⟨rfl, ht⟩

lemma keeps_throw (ht : t.Sound) (halt : Halt) :
    Keeps t (throw halt : PassingRun α) (throw halt) :=
  ⟨rfl, ht⟩

lemma Keeps.bind {f : α → PassingRun β} {g : α → Run β} (h : Keeps t x y)
    (hc : Closes t.machine y post)
    (hf : ∀ a t', t'.Sound → t.machine.Grows t'.machine → post a t'.machine → Keeps t' (f a) (g a)) :
    Keeps t (x >>= f) (y >>= g) := by
  obtain ⟨herases, hsound⟩ := h
  obtain ⟨hgrows, -, hresult⟩ := hc
  rw [herases] at hgrows hresult
  rcases hx : outcome x t with ⟨_ | a, t'⟩ <;> rw [hx] at herases hsound hgrows hresult <;>
    constructor <;> simp only [outcome_bind, hx, herases]
  · exact hsound
  · exact (hf a t' hsound hgrows (hresult a rfl)).erases
  · exact (hf a t' hsound hgrows (hresult a rfl)).sound

lemma Keeps.yield {f : α → β} (h : Keeps t x y) (hc : Closes t.machine y post) :
    Keeps t (x >>= fun a => pure (f a)) (y >>= fun a => pure (f a)) :=
  h.bind hc fun a _ ht _ _ => keeps_pure ht (f a)

lemma keeps_get {f : Passage → PassingRun α} {g : Machine → Run α} (h : Keeps t (f t) (g t.machine)) :
    Keeps t (get >>= f) (get >>= g) := by
  constructor <;> simp only [outcome_bind, outcome_get]
  · exact h.erases
  · exact h.sound

lemma Keeps.ite {p : Prop} [Decidable p] {x' : PassingRun α} {y' : Run α} (ht : Keeps t x y)
    (hf : Keeps t x' y') : Keeps t (if p then x else x') (if p then y else y') := by
  split
  · exact ht
  · exact hf

/-- A step by which no class is made. -/
lemma keeps_lift (ht : t.Sound) (hc : Closes t.machine y post)
    (hclasses : (outcome y t.machine).2.classes = t.machine.classes) : Keeps t (lift y) y :=
  ⟨rfl, ht.goTo hc.closed hclasses⟩

lemma keeps_fail (ht : t.Sound) (cause : RuntimeError.Cause) (line : Nat) :
    Keeps t (lift (fail cause line : Run α)) (fail cause line) := by
  have hfails : Closes t.machine (fail cause line : Run α) fun _ _ => True :=
    closes_fail ht.closed cause line
  exact keeps_lift ht hfails rfl

lemma keeps_require (ht : t.Sound) {result : Option α} {cause : RuntimeError.Cause} {line : Nat}
    {f : α → PassingRun β} {g : α → Run β}
    (h : ∀ a t', result = some a → t'.Sound → t'.machine = t.machine → Keeps t' (f a) (g a)) :
    Keeps t (lift (require result cause line) >>= f) (require result cause line >>= g) := by
  cases result with
  | none => exact ⟨rfl, ht.goTo ht.closed rfl⟩
  | some a =>
    obtain ⟨herases, hsound⟩ := h a (t.goTo t.machine) rfl (ht.goTo ht.closed rfl) rfl
    exact ⟨herases, hsound⟩

lemma keeps_within (ht : t.Sound) (frame : FrameRef) (h : ∀ t' : Passage, t'.Sound → Keeps t' x y) :
    Keeps t (within frame x) (Run.within frame y) := by
  have hfit {m : Machine} (hm : m.Closed) (current : FrameRef) : Machine.Closed { m with current } :=
    hm.grows (.of_eq rfl rfl rfl) rfl rfl rfl
  obtain ⟨herases, hsound⟩ := h (t.goTo { t.machine with current := frame })
    (ht.goTo (hfit ht.closed frame) rfl)
  refine ⟨?_, hsound.goTo (hfit hsound.closed t.machine.current) rfl⟩
  rw [outcome_within]
  exact congrArg (fun ended : Except Halt α × Machine =>
    (ended.1, { ended.2 with current := t.machine.current })) herases

lemma keeps_currentFrame (ht : t.Sound) : Keeps t (lift currentFrame) currentFrame :=
  keeps_lift ht (closes_currentFrame ht.closed) rfl

lemma keeps_newFrame (ht : t.Sound) (enclosing : FrameRef) {bindings : Bindings Value}
    (hb : ∀ name value, bindings.get? name = some value → value.In t.machine) :
    Keeps t (lift (newFrame enclosing bindings)) (newFrame enclosing bindings) :=
  keeps_lift ht (closes_newFrame ht.closed enclosing hb) rfl

lemma keeps_define (ht : t.Sound) (frame : FrameRef) (name : String) {value : Value}
    (hv : value.In t.machine) : Keeps t (lift (define frame name value)) (define frame name value) :=
  keeps_lift ht (closes_define ht.closed frame name hv) rfl

lemma keeps_newFunction (ht : t.Sound) (closure : Closure) :
    Keeps t (lift (newFunction closure)) (newFunction closure) :=
  keeps_lift ht (closes_newFunction ht.closed closure) rfl

lemma keeps_read (ht : t.Sound) (target : Reference) : Keeps t (lift (read target)) (read target) :=
  keeps_lift ht (read_closes ht.closed target) (by rw [outcome_read_snd])

lemma keeps_ofResult (ht : t.Sound) (line : Nat) (result : Except RuntimeError.Cause α) :
    Keeps t (lift (ofResult line result)) (ofResult line result) := by
  have hends : Closes t.machine (ofResult line result) fun _ _ => True :=
    closes_ofResult ht.closed fun _ _ => trivial
  exact keeps_lift ht hends (quiet_ofResult line result t.machine).classes

lemma keeps_assign (ht : t.Sound) (target : Reference) {value : Value} (hv : value.In t.machine) :
    Keeps t (lift (assign target value)) (assign target value) := by
  refine keeps_lift ht (assign_closes ht.closed target hv) ?_
  rw [outcome_assign]
  cases t.machine.binder? target <;> rfl

lemma keeps_print (ht : t.Sound) (text : String) (line : Nat) :
    Keeps t (lift (Run.print text line)) (Run.print text line) :=
  keeps_lift ht (print_closes ht.closed text line) (quiet_print text line t.machine).classes

end Rules

def EvaluatesKeeping (run : Expr → PassingRun Value) (run' : Expr → Run Value) : Prop :=
  ∀ t value, t.Sound → Keeps t (run value) (run' value)

def ExecutesKeeping (run : Stmt → PassingRun Completion) (run' : Stmt → Run Completion) : Prop :=
  ∀ t stated, t.Sound → Keeps t (run stated) (run' stated)

section Steps

variable {run : Expr → PassingRun Value} {run' : Expr → Run Value} {step : Stmt → PassingRun Completion}
  {step' : Stmt → Run Completion}

lemma sequence_keeps (h : ExecutesKeeping step step') (hc : ExecutesClosed step') (ht : t.Sound)
    (body : List Stmt) : Keeps t (sequence step body) (Run.sequence step' body) := by
  induction body generalizing t with
  | nil => exact keeps_pure ht _
  | cons stated rest ih =>
    refine (h t stated ht).bind (hc _ stated ht.closed) fun completion t' ht' _ _ => ?_
    cases completion with
    | normal => exact ih ht'
    | returned value => exact keeps_pure ht' _

lemma evaluateEach_keeps (h : EvaluatesKeeping run run') (hc : EvaluatesClosed run') (ht : t.Sound)
    (values : List Expr) : Keeps t (evaluateEach run values) (Run.evaluateEach run' values) := by
  induction values generalizing t with
  | nil => exact keeps_pure ht _
  | cons value rest ih =>
    exact (h t value ht).bind (hc _ value ht.closed) fun first t' ht' _ _ =>
      (ih ht').yield (evaluateEach_closes hc ht'.closed rest)

lemma option_keeps (h : EvaluatesKeeping run run') (ht : t.Sound) (value : Option Expr) :
    Keeps t (value.elim (pure .nil) run) (value.elim (pure .nil) run') := by
  cases value with
  | none => exact keeps_pure ht _
  | some value => exact h t value ht

lemma bound_keeps (ht : t.Sound) (method : Closure) {self : InstanceRef}
    (hs : Value.In t.machine (.instanceAt self)) :
    Keeps t (bound method self) (Run.bound method self) :=
  (keeps_newFrame ht method.scope (in_of_single hs)).yield
    (closes_newFrame ht.closed method.scope (in_of_single hs))

lemma boundValue_keeps (ht : t.Sound) (method : Closure) {self : InstanceRef}
    (hs : Value.In t.machine (.instanceAt self)) :
    Keeps t (boundValue method self) (Run.boundValue method self) :=
  (bound_keeps ht method hs).bind (bound_closes ht.closed method hs) fun closure _ ht' _ _ =>
    (keeps_newFunction ht' closure).yield (closes_newFunction ht'.closed closure)

lemma invoke_keeps (h : ExecutesKeeping step step') (hc : ExecutesClosed step') (ht : t.Sound)
    (closure : Closure) {arguments : List Value} (ha : ∀ value ∈ arguments, value.In t.machine) :
    Keeps t (invoke step closure arguments) (Run.invoke step' closure arguments) := by
  have hbindings := in_of_parameters ha (closure.decl.params.map Name.text)
  refine (keeps_newFrame ht closure.scope hbindings).bind
    (closes_newFrame ht.closed closure.scope hbindings) fun frame t' ht' _ _ => ?_
  have hbody : Closes t'.machine (Run.within frame (Run.sequence step' closure.decl.body))
      fun _ _ => True :=
    closes_within ht'.closed (fun _ hm => ⟨(sequence_closes hc hm _).grows,
      (sequence_closes hc hm _).closed, fun _ _ => trivial⟩) fun _ _ _ _ => trivial
  refine (keeps_within ht' frame fun t ht => sequence_keeps h hc ht _).bind hbody
    fun completion t'' ht'' _ _ => ?_
  exact (keeps_get (keeps_pure ht'' _)).ite (keeps_pure ht'' _)

lemma call_keeps (h : ExecutesKeeping step step') (hc : ExecutesClosed step') (ht : t.Sound)
    {callable : Callable}
    (hclass : ∀ ref initializer, callable = .construct ref initializer →
      ref.index < t.machine.classes.size)
    {arguments : List Value} (ha : ∀ value ∈ arguments, value.In t.machine) :
    Keeps t (call step callable arguments) (Run.call step' callable arguments) := by
  cases callable with
  | native primitive =>
    cases primitive
    refine ⟨rfl, ht.goTo (ht.closed.grows (.of_eq rfl rfl rfl) rfl rfl rfl) rfl⟩
  | function closure => exact invoke_keeps h hc ht closure ha
  | construct ref initializer =>
    have hmade := newInstance_closes ht.closed (hclass ref initializer rfl)
    refine (keeps_lift ht hmade rfl).bind hmade fun self t' ht' hgrows hself => ?_
    cases initializer with
    | none => exact keeps_pure ht' _
    | some method =>
      refine (bound_keeps ht' method hself).bind (bound_closes ht'.closed method hself)
        fun closure t'' ht'' hgrows' _ => ?_
      have hgiven : ∀ value ∈ arguments, value.In t''.machine := fun value hv =>
        (ha value hv).grows (hgrows.trans hgrows')
      exact (invoke_keeps h hc ht'' closure hgiven).yield (invoke_closes hc ht''.closed closure hgiven)

lemma callValue_keeps (h : ExecutesKeeping step step') (hc : ExecutesClosed step') (ht : t.Sound)
    {callee : Value} (hcallee : callee.In t.machine) {arguments : List Value}
    (ha : ∀ value ∈ arguments, value.In t.machine) (line : Nat) :
    Keeps t (callValue step callee arguments line) (Run.callValue step' callee arguments line) := by
  refine keeps_get (keeps_require ht fun callable t' hcallable ht' hmachine => ?_)
  rw [← hmachine] at hcallee ha
  refine (call_keeps h hc ht' ?_ ha).ite (keeps_fail ht' _ _)
  rintro ref initializer rfl
  exact index_lt_of_construct hcallee (hmachine ▸ hcallable)

lemma getProperty_keeps (ht : t.Sound) {object : Value} (ho : object.In t.machine) (property : Name) :
    Keeps t (getProperty object property) (Run.getProperty object property) := by
  cases object with
  | instanceAt self =>
    refine keeps_get (keeps_require ht fun member t' _ ht' hmachine => ?_)
    rw [← hmachine] at ho
    cases member with
    | field value => exact keeps_pure ht' value
    | method method => exact boundValue_keeps ht' method ho
  | nil | boolean | number | text | native | functionAt | classAt => exact keeps_fail ht _ _

lemma getSuper_keeps (ht : t.Sound) (keyword : Reference) (method : Name) :
    Keeps t (getSuper keyword method) (Run.getSuper keyword method) := by
  refine keeps_get (keeps_require ht fun (parent, self) t' hsuper ht' hmachine => ?_)
  refine keeps_require ht' fun found t'' _ ht'' hmachine' => boundValue_keeps ht'' found ?_
  rw [hmachine', hmachine]
  exact (ht.closed.super? hsuper).2

lemma declareFunction_keeps (ht : t.Sound) (decl : FunctionDecl) :
    Keeps t (declareFunction decl) (Run.declareFunction decl) :=
  (keeps_currentFrame ht).bind (closes_currentFrame ht.closed) fun frame _ ht' _ _ =>
    (keeps_newFunction ht' ⟨decl, frame, false⟩).bind (closes_newFunction ht'.closed _)
      fun _ _ ht'' _ hin => keeps_define ht'' frame decl.name.text hin

lemma makeClass_keeps (ht : t.Sound) (decl : ClassDecl) {superclass : Option ClassRef}
    (hp : ∀ parent, superclass = some parent → Value.In t.machine (.classAt parent))
    (scope : FrameRef) :
    Keeps t (makeClass decl superclass scope) (Run.makeClass decl superclass scope) :=
  ⟨rfl, ht.declare (makeClass_closes ht.closed decl hp scope).closed rfl
    (Class.isOf decl superclass scope)⟩

lemma superclassOf_keeps (ht : t.Sound) (target : Reference) :
    Keeps t (lift (superclassOf target)) (superclassOf target) :=
  keeps_lift ht (superclassOf_closes ht.closed target) (quiet_superclassOf target t.machine).classes

lemma declareClass_keeps (ht : t.Sound) (decl : ClassDecl) :
    Keeps t (declareClass decl) (Run.declareClass decl) := by
  rw [declareClass_eq]
  have hsuperclass : Keeps t (decl.superclass.mapM fun target => lift (superclassOf target))
      (decl.superclass.mapM superclassOf) := by
    cases decl.superclass with
    | none => exact keeps_pure ht none
    | some target =>
      simp only [Option.mapM_some, ← bind_pure_comp]
      exact (superclassOf_keeps ht target).yield (superclassOf_closes ht.closed target)
  refine hsuperclass.bind (superclass_closes ht.closed decl.superclass) fun superclass t₁ ht₁ _ hp => ?_
  refine (keeps_currentFrame ht₁).bind (closes_currentFrame ht₁.closed) fun frame t₂ ht₂ hgrows₂ _ => ?_
  have hnil : Value.In t₂.machine .nil := trivial
  refine (keeps_define ht₂ frame decl.name.text hnil).bind (closes_define ht₂.closed frame _ hnil)
    fun _ t₃ ht₃ hgrows₃ _ => ?_
  have hp₃ (parent : ClassRef) (hparent : superclass = some parent) :
      Value.In t₃.machine (.classAt parent) :=
    (hp parent hparent).grows (hgrows₂.trans hgrows₃)
  -- What comes after the frame of the methods.
  have hrest {t' : Passage} (ht' : t'.Sound) (hgrows : t₃.machine.Grows t'.machine) (scope : FrameRef) :
      Keeps t' (makeClass decl superclass scope >>= fun ref =>
          lift (define frame decl.name.text (.classAt ref)))
        (Run.makeClass decl superclass scope >>= fun ref =>
          define frame decl.name.text (.classAt ref)) := by
    have hp' (parent : ClassRef) (hparent : superclass = some parent) :=
      (hp₃ parent hparent).grows hgrows
    exact (makeClass_keeps ht' decl hp' scope).bind (makeClass_closes ht'.closed decl hp' scope)
      fun _ _ ht'' _ hin => keeps_define ht'' frame decl.name.text hin
  cases superclass with
  | none => exact hrest ht₃ (.refl _) frame
  | some ref =>
    exact (keeps_newFrame ht₃ frame (in_of_single (hp₃ ref rfl))).bind
      (closes_newFrame ht₃.closed frame (in_of_single (hp₃ ref rfl))) fun scope _ ht' hgrows _ =>
        hrest ht' hgrows scope

end Steps

section Evaluation

variable {fuel : Nat}

lemma evaluate_keeps (h : EvaluatesKeeping (evaluate fuel) (Lox.evaluate fuel))
    (hx : ExecutesKeeping (execute fuel) (Lox.execute fuel)) :
    EvaluatesKeeping (evaluate (fuel + 1)) (Lox.evaluate (fuel + 1)) := by
  intro t node ht
  obtain ⟨hc, hcx⟩ := all_close fuel
  cases node with
  | literal value => exact keeps_pure ht _
  | grouping inner => exact h t inner ht
  | unary op line operand =>
    exact (h t operand ht).bind (hc _ operand ht.closed) fun _ _ ht' _ _ => keeps_ofResult ht' _ _
  | binary op line left right =>
    exact (h t left ht).bind (hc _ left ht.closed) fun _ t' ht' _ _ =>
      (h t' right ht').bind (hc _ right ht'.closed) fun _ _ ht'' _ _ => keeps_ofResult ht'' _ _
  | logical op line left right =>
    exact (h t left ht).bind (hc _ left ht.closed) fun value t' ht' _ _ =>
      (keeps_pure ht' value).ite (h t' right ht')
  | read target | this target => exact keeps_read ht target
  | assign target value =>
    refine (h t value ht).bind (hc _ value ht.closed) fun given t' ht' _ hv => ?_
    exact (keeps_assign ht' target hv).yield (assign_closes ht'.closed target hv)
  | call callee arguments line =>
    refine (h t callee ht).bind (hc _ callee ht.closed) fun called t' ht' _ hcalled => ?_
    exact (evaluateEach_keeps h hc ht' arguments).bind (evaluateEach_closes hc ht'.closed arguments)
      fun given _ ht'' hgrows hgiven => callValue_keeps hx hcx ht'' (hcalled.grows hgrows) hgiven line
  | get object property =>
    exact (h t object ht).bind (hc _ object ht.closed) fun _ _ ht' _ ho =>
      getProperty_keeps ht' ho property
  | set object property value =>
    refine (h t object ht).bind (hc _ object ht.closed) fun self t' ht' _ _ => ?_
    cases self with
    | instanceAt self =>
      refine (h t' value ht').bind (hc _ value ht'.closed) fun given t'' ht'' _ hv => ?_
      have hset := setField_closes ht''.closed self property.text hv
      exact (keeps_lift ht'' hset rfl).yield hset
    | nil | boolean | number | text | native | functionAt | classAt => exact keeps_fail ht' _ _
  | super keyword method => exact getSuper_keeps ht keyword method

lemma execute_keeps (h : EvaluatesKeeping (evaluate fuel) (Lox.evaluate fuel))
    (hx : ExecutesKeeping (execute fuel) (Lox.execute fuel)) :
    ExecutesKeeping (execute (fuel + 1)) (Lox.execute (fuel + 1)) := by
  intro t stated ht
  obtain ⟨hc, hcx⟩ := all_close fuel
  cases stated with
  | expression value => exact (h t value ht).yield (hc _ value ht.closed)
  | print line value =>
    refine (h t value ht).bind (hc _ value ht.closed) fun _ t' ht' _ _ => keeps_get ?_
    exact (keeps_print ht' _ line).yield (print_closes ht'.closed _ line)
  | varDecl name initial =>
    refine (option_keeps h ht initial).bind (option_closes hc ht.closed initial)
      fun value t' ht' _ hv => ?_
    refine (keeps_currentFrame ht').bind (closes_currentFrame ht'.closed)
      fun frame t'' ht'' hgrows _ => ?_
    exact (keeps_define ht'' frame name.text (hv.grows hgrows)).yield
      (closes_define ht''.closed frame name.text (hv.grows hgrows))
  | functionDecl decl =>
    exact (declareFunction_keeps ht decl).yield (declareFunction_closes ht.closed decl)
  | classDecl decl => exact (declareClass_keeps ht decl).yield (declareClass_closes ht.closed decl)
  | block body =>
    refine (keeps_currentFrame ht).bind (closes_currentFrame ht.closed) fun outer t' ht' _ _ => ?_
    exact (keeps_newFrame ht' outer (by simp)).bind (closes_newFrame ht'.closed outer (by simp))
      fun frame t'' ht'' _ _ => keeps_within ht'' frame fun t ht => sequence_keeps hx hcx ht body
  | ifElse condition thenBranch elseBranch =>
    refine (h t condition ht).bind (hc _ condition ht.closed) fun _ t' ht' _ _ =>
      (hx t' thenBranch ht').ite ?_
    cases elseBranch with
    | none => exact keeps_pure ht' _
    | some elseBranch => exact hx t' elseBranch ht'
  | whileLoop condition body =>
    refine (h t condition ht).bind (hc _ condition ht.closed) fun _ t' ht' _ _ =>
      Keeps.ite ?_ (keeps_pure ht' _)
    refine (hx t' body ht').bind (hcx _ body ht'.closed) fun completion t'' ht'' _ _ => ?_
    cases completion with
    | normal => exact hx t'' (.whileLoop condition body) ht''
    | returned value => exact keeps_pure ht'' _
  | ret keyword value =>
    exact (option_keeps h ht value).yield (option_closes hc ht.closed value)

lemma all_keep (fuel : Nat) : EvaluatesKeeping (evaluate fuel) (Lox.evaluate fuel) ∧
    ExecutesKeeping (execute fuel) (Lox.execute fuel) := by
  -- What the values that come up refer to is there, by `all_close`.
  induction fuel with
  | zero => exact ⟨fun _ _ ht => keeps_throw ht _, fun _ _ ht => keeps_throw ht _⟩
  | succ fuel ih => exact ⟨evaluate_keeps ih.1 ih.2, execute_keeps ih.1 ih.2⟩

lemma program_keeps (fuel : Nat) (program : Program) (ht : t.Sound) :
    Keeps t (executeProgram fuel program) (Program.execute fuel program) := by
  induction program generalizing t with
  | nil => exact keeps_pure ht _
  | cons stated rest ih =>
    exact ((all_keep fuel).2 t stated ht).bind ((all_close fuel).2 _ stated ht.closed)
      fun _ _ ht' _ _ => ih ht'

end Evaluation

end PassingRun

end Lox
