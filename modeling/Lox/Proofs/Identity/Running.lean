import Lox.Eval.Evaluate
import Lox.Proofs.Identity.Machine
import Lox.Proofs.Machine.Steps

/-! Running does not depend on identities: on machines that correspond, a tree and its copy with
other identities have the same result, and the machines correspond afterwards. -/

namespace Lox

variable {α β : Type} {ρ : Nat → Nat}

/-- From machines that correspond the second run does as the first: its result is the one that
corresponds to that of the first, and the machines still correspond. -/
def Simulates (ρ : Nat → Nat) (x y : Run α) (act : α → α) : Prop :=
  ∀ m m', Corresponds ρ m m' →
    (outcome y m').1 = (outcome x m).1.map act ∧ Corresponds ρ (outcome x m).2 (outcome y m').2

lemma Simulates.bind {x y : Run α} {act : α → α} {f g : α → Run β} {act' : β → β}
    (h : Simulates ρ x y act) (hf : ∀ a, Simulates ρ (f a) (g (act a)) act') :
    Simulates ρ (x >>= f) (y >>= g) act' := by
  intro m m' hm
  obtain ⟨hresult, hafter⟩ := h m m' hm
  rw [outcome_bind, outcome_bind]
  rcases hx : outcome x m with ⟨halt | a, n⟩ <;> rcases hy : outcome y m' with ⟨halt' | a', n'⟩ <;>
    simp only [hx, hy, Except.map, Except.error.injEq, Except.ok.injEq, reduceCtorEq] at hresult hafter
  · exact ⟨congrArg Except.error hresult, hafter⟩
  · subst hresult
    exact hf a n n' hafter

lemma Simulates.andThen {x y : Run α} {f g : α → Run β} {act : β → β} (h : Simulates ρ x y id)
    (hf : ∀ a, Simulates ρ (f a) (g a) act) : Simulates ρ (x >>= f) (y >>= g) act :=
  h.bind hf

lemma simulates_pure {a b : α} {act : α → α} (h : b = act a) :
    Simulates ρ (pure a) (pure b) act :=
  fun _ _ hm => ⟨congrArg Except.ok h, hm⟩

lemma simulates_throw (halt : Halt) (act : α → α) : Simulates ρ (throw halt) (throw halt) act :=
  fun _ _ hm => ⟨rfl, hm⟩

lemma Simulates.map {x y : Run α} {act : α → α} (h : Simulates ρ x y act) {f g : α → β}
    {act' : β → β} (hf : ∀ a, g (act a) = act' (f a)) : Simulates ρ (f <$> x) (g <$> y) act' := by
  rw [← bind_pure_comp, ← bind_pure_comp]
  exact h.bind fun a => simulates_pure (hf a)

lemma Simulates.ite {p : Prop} [Decidable p] {x y x' y' : Run α} {act : α → α}
    (ht : Simulates ρ x y act) (hf : Simulates ρ x' y' act) :
    Simulates ρ (if p then x else x') (if p then y else y') act := by
  split
  · exact ht
  · exact hf

lemma simulates_get {f g : Machine → Run α} {act : α → α}
    (h : ∀ m m', Corresponds ρ m m' → Simulates ρ (f m) (g m') act) :
    Simulates ρ (get >>= f) (get >>= g) act := by
  intro m m' hm
  simp only [outcome_bind, outcome_get]
  exact h m m' hm m m' hm

lemma simulates_modify {f g : Machine → Machine}
    (h : ∀ m m', Corresponds ρ m m' → Corresponds ρ (f m) (g m')) :
    Simulates ρ (modify f) (modify g) id :=
  fun m m' hm => ⟨rfl, h m m' hm⟩

lemma simulates_modifyGet {f g : Machine → α × Machine}
    (h : ∀ m m', Corresponds ρ m m' → (g m').1 = (f m).1 ∧ Corresponds ρ (f m).2 (g m').2) :
    Simulates ρ (modifyGet f) (modifyGet g) id :=
  fun m m' hm => ⟨congrArg Except.ok (h m m' hm).1, (h m m' hm).2⟩

namespace Run

lemma fail_simulates (cause : RuntimeError.Cause) (line : Nat) (act : α → α) :
    Simulates ρ (fail cause line) (fail cause line) act :=
  simulates_throw _ _

lemma require_simulates {found found' : Option α} {act : α → α} (h : found' = found.map act)
    (cause : RuntimeError.Cause) (line : Nat) :
    Simulates ρ (require found cause line) (require found' cause line) act := by
  subst h
  cases found with
  | none => exact fail_simulates _ _ _
  | some value => exact simulates_pure rfl

lemma ofResult_simulates (line : Nat) (result : Except RuntimeError.Cause α) :
    Simulates ρ (ofResult line result) (ofResult line result) id := by
  cases result with
  | error cause => exact fail_simulates _ _ _
  | ok value => exact simulates_pure rfl

lemma currentFrame_simulates : Simulates ρ currentFrame currentFrame id :=
  simulates_get fun _ _ h => simulates_pure h.current

lemma newFrame_simulates (enclosing : FrameRef) (bindings : Bindings Value) :
    Simulates ρ (newFrame enclosing bindings) (newFrame enclosing bindings) id :=
  simulates_modifyGet fun _ _ h =>
    ⟨by rw [h.frames], { h with frames := by simp only [h.frames] }⟩

lemma newFunction_simulates (closure : Closure) :
    Simulates ρ (newFunction closure) (newFunction (closure.rename ρ)) id :=
  simulates_modifyGet fun _ _ h =>
    ⟨by simp [h.functions], { h with functions := by simp [h.functions] }⟩

lemma newClass_simulates (type : Class) :
    Simulates ρ (newClass type) (newClass (type.rename ρ)) id :=
  simulates_modifyGet fun _ _ h =>
    ⟨by simp [h.classes], { h with classes := by simp [h.classes] }⟩

lemma newInstance_simulates (ref : ClassRef) :
    Simulates ρ (newInstance ref) (newInstance ref) id :=
  simulates_modifyGet fun _ _ h =>
    ⟨by rw [h.instances], { h with instances := by simp only [h.instances] }⟩

lemma define_simulates (frame : FrameRef) (name : String) (value : Value) :
    Simulates ρ (define frame name value) (define frame name value) id :=
  simulates_modify fun _ _ h => { h with frames := by simp only [h.frames] }

lemma setField_simulates (self : InstanceRef) (name : String) (value : Value) :
    Simulates ρ (setField self name value) (setField self name value) id :=
  simulates_modify fun _ _ h => { h with instances := by simp only [h.instances] }

lemma readClock_simulates : Simulates ρ readClock readClock id :=
  simulates_modifyGet fun _ _ h =>
    ⟨by rw [h.clock], { h with clock := by simp only [h.clock] }⟩

lemma within_simulates (frame : FrameRef) {x y : Run α} {act : α → α} (h : Simulates ρ x y act) :
    Simulates ρ (within frame x) (within frame y) act := by
  intro m m' hm
  obtain ⟨hresult, hafter⟩ := h _ _ ({ hm with current := rfl } :
    Corresponds ρ { m with current := frame } { m' with current := frame })
  rw [outcome_within, outcome_within]
  exact ⟨hresult, { hafter with current := hm.current }⟩

lemma print_simulates (text : String) (line : Nat) :
    Simulates ρ (print text line) (print text line) id := by
  refine simulates_get fun m m' h => ?_
  refine Simulates.andThen (simulates_modify fun _ _ h => ?_) fun _ => ?_
  · exact { h with output := by simp only [h.output] }
  · rw [h.output]
    exact .ite (fail_simulates _ _ _) (simulates_pure rfl)

lemma read_simulates (target : Reference) :
    Simulates ρ (read target) (read (target.rename ρ)) id := by
  refine simulates_get fun m m' h => require_simulates ?_ _ _
  rw [h.read?, Option.map_id, id]

lemma assign_simulates (target : Reference) (value : Value) :
    Simulates ρ (assign target value) (assign (target.rename ρ) value) id := by
  refine simulates_get fun m m' h => Simulates.andThen (require_simulates ?_ _ _) fun frame =>
    define_simulates frame _ value
  rw [h.binder?, Option.map_id, id]

lemma sequence_simulates {run run' : Stmt → Run Completion}
    (h : ∀ stated, Simulates ρ (run stated) (run' (stated.rename ρ)) id) (body : List Stmt) :
    Simulates ρ (sequence run body) (sequence run' (body.map (Stmt.rename ρ))) id := by
  induction body with
  | nil => exact simulates_pure rfl
  | cons stated rest ih =>
    refine (h stated).andThen fun completion => ?_
    cases completion with
    | normal => exact ih
    | returned value => exact simulates_pure rfl

lemma evaluateEach_simulates {run run' : Expr → Run Value}
    (h : ∀ value, Simulates ρ (run value) (run' (value.rename ρ)) id) (values : List Expr) :
    Simulates ρ (evaluateEach run values) (evaluateEach run' (Expr.renameAll ρ values)) id := by
  induction values with
  | nil => exact simulates_pure rfl
  | cons value rest ih =>
    exact (h value).andThen fun _ => ih.andThen fun _ => simulates_pure rfl

lemma bound_simulates (method : Closure) (self : InstanceRef) :
    Simulates ρ (bound method self) (bound (method.rename ρ) self) (Closure.rename ρ) :=
  (newFrame_simulates _ _).andThen fun _ => simulates_pure rfl

lemma boundValue_simulates (method : Closure) (self : InstanceRef) :
    Simulates ρ (boundValue method self) (boundValue (method.rename ρ) self) id :=
  (bound_simulates method self).bind fun closure =>
    (newFunction_simulates closure).andThen fun _ => simulates_pure rfl

section Calls

variable {run run' : Stmt → Run Completion}

lemma invoke_simulates (h : ∀ stated, Simulates ρ (run stated) (run' (stated.rename ρ)) id)
    (closure : Closure) (arguments : List Value) :
    Simulates ρ (invoke run closure arguments) (invoke run' (closure.rename ρ) arguments) id := by
  simp only [invoke, Closure.rename, FunctionDecl.params_rename, FunctionDecl.body_rename]
  refine (newFrame_simulates _ _).andThen fun frame =>
    (within_simulates frame (sequence_simulates h closure.decl.body)).andThen fun _ => .ite ?_ ?_
  · exact simulates_get fun _ _ hm => simulates_pure (by rw [hm.frames, id])
  · exact simulates_pure rfl

lemma call_simulates (h : ∀ stated, Simulates ρ (run stated) (run' (stated.rename ρ)) id)
    (callable : Callable) (arguments : List Value) :
    Simulates ρ (call run callable arguments) (call run' (callable.rename ρ) arguments) id := by
  cases callable with
  | native primitive =>
    cases primitive
    exact readClock_simulates.map fun _ => rfl
  | function closure => exact invoke_simulates h closure arguments
  | construct ref initializer =>
    refine (newInstance_simulates ref).andThen fun self => ?_
    cases initializer with
    | none => exact simulates_pure rfl
    | some method =>
      exact (bound_simulates method self).bind fun closure =>
        (invoke_simulates h closure arguments).andThen fun _ => simulates_pure rfl

lemma callValue_simulates (h : ∀ stated, Simulates ρ (run stated) (run' (stated.rename ρ)) id)
    (callee : Value) (arguments : List Value) (line : Nat) :
    Simulates ρ (callValue run callee arguments line) (callValue run' callee arguments line) id := by
  refine simulates_get fun m m' hm =>
    (require_simulates (hm.callable? callee) _ _).bind fun callable => ?_
  rw [Callable.arity_rename]
  exact .ite (call_simulates h callable arguments) (fail_simulates _ _ _)

end Calls

lemma getProperty_simulates (object : Value) (property : Name) :
    Simulates ρ (getProperty object property) (getProperty object property) id := by
  cases object with
  | instanceAt self =>
    refine simulates_get fun m m' hm =>
      (require_simulates (hm.member? self _) _ _).bind fun member => ?_
    cases member with
    | field value => exact simulates_pure rfl
    | method closure => exact boundValue_simulates closure self
  | nil | boolean | number | text | native | functionAt | classAt => exact fail_simulates _ _ _

lemma getSuper_simulates (keyword : Reference) (method : Name) :
    Simulates ρ (getSuper keyword method) (getSuper (keyword.rename ρ) method) id := by
  refine simulates_get fun m m' hm => ?_
  have hsuper : m'.super? (keyword.rename ρ) = (m.super? keyword).map id := by
    rw [hm.super?, Option.map_id, id]
  refine Simulates.andThen (require_simulates hsuper _ _) fun (superclass, self) => ?_
  exact (require_simulates (hm.method? superclass _) _ _).bind fun closure =>
    boundValue_simulates closure self

lemma superclassOf_simulates (target : Reference) :
    Simulates ρ (superclassOf target) (superclassOf (target.rename ρ)) id := by
  refine (read_simulates target).andThen fun value => ?_
  cases value with
  | classAt ref => exact simulates_pure rfl
  | nil | boolean | number | text | native | functionAt | instanceAt => exact fail_simulates _ _ _

lemma declareFunction_simulates (decl : FunctionDecl) :
    Simulates ρ (declareFunction decl) (declareFunction (decl.rename ρ)) id := by
  refine currentFrame_simulates.andThen fun frame => ?_
  rw [FunctionDecl.name_rename]
  exact (newFunction_simulates ⟨decl, frame, false⟩).andThen fun ref => define_simulates _ _ _

lemma makeClass_simulates (decl : ClassDecl) (superclass : Option ClassRef) (scope : FrameRef) :
    Simulates ρ (makeClass decl superclass scope) (makeClass (decl.rename ρ) superclass scope) id := by
  obtain ⟨name, parent, methods⟩ := decl
  have hmethods : (∅ : Bindings Closure).insertAll ((FunctionDecl.renameAll ρ methods).map
        fun method => (method.name.text, ⟨method, scope, method.isInitializer⟩)) =
      ((∅ : Bindings Closure).insertAll (methods.map
        fun method => (method.name.text, ⟨method, scope, method.isInitializer⟩))).map
          (Closure.rename ρ) := by
    simp only [Bindings.map_insertAll, FunctionDecl.renameAll_eq_map, List.map_map,
      Bindings.map_empty]
    congr 2
    funext method
    simp [Closure.rename]
  simp only [makeClass, ClassDecl.rename, hmethods]
  exact newClass_simulates _

lemma declareClass_simulates (decl : ClassDecl) :
    Simulates ρ (declareClass decl) (declareClass (decl.rename ρ)) id := by
  have hparent : Simulates ρ (decl.superclass.mapM superclassOf)
      ((decl.rename ρ).superclass.mapM superclassOf) id := by
    obtain ⟨name, parent, methods⟩ := decl
    cases parent with
    | none => exact simulates_pure rfl
    | some target => exact (superclassOf_simulates target).map fun _ => rfl
  have hname : (decl.rename ρ).name = decl.name := by
    cases decl
    rfl
  simp only [declareClass_eq, hname]
  refine hparent.andThen fun superclass => currentFrame_simulates.andThen fun frame =>
    (define_simulates _ _ _).andThen fun _ => ?_
  have hrest (scope : FrameRef) : Simulates ρ
      (makeClass decl superclass scope >>= fun ref => define frame decl.name.text (.classAt ref))
      (makeClass (decl.rename ρ) superclass scope >>= fun ref =>
        define frame decl.name.text (.classAt ref)) id :=
    (makeClass_simulates decl superclass scope).andThen fun _ => define_simulates _ _ _
  cases superclass with
  | none => exact Simulates.andThen (simulates_pure rfl) hrest
  | some ref => exact (newFrame_simulates _ _).andThen hrest

end Run

lemma option_simulates {run run' : Expr → Run Value}
    (h : ∀ value, Simulates ρ (run value) (run' (value.rename ρ)) id) (value : Option Expr) :
    Simulates ρ (value.elim (pure .nil) run) ((value.map (Expr.rename ρ)).elim (pure .nil) run')
      id := by
  cases value with
  | none => exact simulates_pure rfl
  | some value => exact h value

structure Simulation (ρ : Nat → Nat) (fuel : Nat) : Prop where
  evaluate : ∀ value, Simulates ρ (Lox.evaluate fuel value) (Lox.evaluate fuel (value.rename ρ)) id
  execute : ∀ stated, Simulates ρ (Lox.execute fuel stated) (Lox.execute fuel (stated.rename ρ)) id

lemma evaluate_simulates {fuel : Nat} (h : Simulation ρ fuel) (value : Expr) :
    Simulates ρ (evaluate (fuel + 1) value) (evaluate (fuel + 1) (value.rename ρ)) id := by
  cases value with
  | literal value => exact simulates_pure rfl
  | grouping inner => exact h.evaluate inner
  | unary op line operand =>
    exact (h.evaluate operand).andThen fun _ => Run.ofResult_simulates _ _
  | binary op line left right =>
    exact (h.evaluate left).andThen fun _ => (h.evaluate right).andThen fun _ =>
      Run.ofResult_simulates _ _
  | logical op line left right =>
    exact (h.evaluate left).andThen fun _ => .ite (simulates_pure rfl) (h.evaluate right)
  | read target => exact Run.read_simulates target
  | assign target value =>
    exact (h.evaluate value).andThen fun value => (Run.assign_simulates target value).andThen
      fun _ => simulates_pure rfl
  | call callee arguments line =>
    exact (h.evaluate callee).andThen fun callee =>
      (Run.evaluateEach_simulates h.evaluate arguments).andThen fun given =>
        Run.callValue_simulates h.execute callee given line
  | get object property =>
    exact (h.evaluate object).andThen fun object => Run.getProperty_simulates object property
  | set object property value =>
    refine (h.evaluate object).andThen fun object => ?_
    cases object with
    | instanceAt self =>
      exact (h.evaluate value).andThen fun _ => (Run.setField_simulates _ _ _).andThen
        fun _ => simulates_pure rfl
    | nil | boolean | number | text | native | functionAt | classAt =>
      exact Run.fail_simulates _ _ _
  | this keyword => exact Run.read_simulates keyword
  | super keyword method => exact Run.getSuper_simulates keyword method

lemma execute_simulates {fuel : Nat} (h : Simulation ρ fuel) (stated : Stmt) :
    Simulates ρ (execute (fuel + 1) stated) (execute (fuel + 1) (stated.rename ρ)) id := by
  cases stated with
  | expression value => exact (h.evaluate value).andThen fun _ => simulates_pure rfl
  | print line value =>
    refine (h.evaluate value).andThen fun value => simulates_get fun m m' hm => ?_
    rw [hm.textOf]
    exact (Run.print_simulates _ _).andThen fun _ => simulates_pure rfl
  | varDecl name initial =>
    exact (option_simulates h.evaluate initial).andThen fun _ =>
      Run.currentFrame_simulates.andThen fun _ => (Run.define_simulates _ _ _).andThen
        fun _ => simulates_pure rfl
  | functionDecl decl =>
    exact (Run.declareFunction_simulates decl).andThen fun _ => simulates_pure rfl
  | classDecl decl =>
    exact (Run.declareClass_simulates decl).andThen fun _ => simulates_pure rfl
  | block body =>
    refine Run.currentFrame_simulates.andThen fun _ => (Run.newFrame_simulates _ _).andThen
      fun frame => Run.within_simulates frame ?_
    rw [Stmt.renameAll_eq_map]
    exact Run.sequence_simulates h.execute body
  | ifElse condition thenBranch elseBranch =>
    cases elseBranch with
    | none =>
      exact (h.evaluate condition).andThen fun _ => .ite (h.execute thenBranch) (simulates_pure rfl)
    | some elseBranch =>
      exact (h.evaluate condition).andThen fun _ =>
        .ite (h.execute thenBranch) (h.execute elseBranch)
  | whileLoop condition body =>
    refine (h.evaluate condition).andThen fun _ => .ite ?_ (simulates_pure rfl)
    refine (h.execute body).andThen fun completion => ?_
    cases completion with
    | normal => exact h.execute (.whileLoop condition body)
    | returned value => exact simulates_pure rfl
  | ret keyword value =>
    exact (option_simulates h.evaluate value).andThen fun _ => simulates_pure rfl

lemma simulation (ρ : Nat → Nat) (fuel : Nat) : Simulation ρ fuel := by
  induction fuel with
  | zero => constructor <;> intros <;> exact simulates_throw _ _
  | succ fuel ih => exact ⟨evaluate_simulates ih, execute_simulates ih⟩

lemma Program.execute_simulates (ρ : Nat → Nat) (fuel : Nat) (program : Program) :
    Simulates ρ (Program.execute fuel program) (Program.execute fuel (Stmt.renameAll ρ program))
      id := by
  induction program with
  | nil => exact simulates_pure rfl
  | cons stated rest ih => exact ((simulation ρ fuel).execute stated).andThen fun _ => ih

end Lox
