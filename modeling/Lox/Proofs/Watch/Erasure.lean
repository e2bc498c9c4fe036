import Lox.Proofs.Watch.Evaluate

/-! A run under watch, without its journal, is the run itself. -/

namespace Lox

namespace WatchedRun

variable {α β γ δ : Type}

lemma outcome_lift (x : Run α) (w : Watch) :
    outcome (lift x) w =
      ((outcome x w.machine).1, { w with machine := (outcome x w.machine).2 }) := rfl

lemma outcome_within (frame : FrameRef) (body : WatchedRun α) (w : Watch) :
    outcome (within frame body) w =
      let ended := outcome body { w with machine.current := frame }
      (ended.1, { ended.2 with machine.current := w.machine.current }) := rfl

/-- The run does on the machine what the one under watch does, with the result that corresponds. -/
def Erases (x : WatchedRun α) (y : Run β) (act : α → β) : Prop :=
  ∀ w, outcome y w.machine = ((outcome x w).1.map act, (outcome x w).2.machine)

lemma Erases.bind {x : WatchedRun α} {y : Run β} {act : α → β} {f : α → WatchedRun γ}
    {g : β → Run δ} {act' : γ → δ} (h : Erases x y act) (hf : ∀ a, Erases (f a) (g (act a)) act') :
    Erases (x >>= f) (y >>= g) act' := by
  intro w
  rw [outcome_bind, outcome_bind, h w]
  rcases outcome x w with ⟨_ | a, w'⟩
  · rfl
  · exact hf a w'

lemma Erases.andThen {x : WatchedRun α} {y : Run α} {f : α → WatchedRun γ} {g : α → Run δ}
    {act : γ → δ} (h : Erases x y id) (hf : ∀ a, Erases (f a) (g a) act) :
    Erases (x >>= f) (y >>= g) act :=
  h.bind hf

lemma erases_pure {a : α} {b : β} {act : α → β} (h : act a = b) : Erases (pure a) (pure b) act := by
  intro w
  rw [← h]
  rfl

lemma erases_throw (halt : Halt) (act : α → β) : Erases (throw halt) (throw halt) act :=
  fun _ => rfl

lemma erases_lift (x : Run α) : Erases (lift x) x id := by
  intro w
  rw [outcome_lift]
  rcases outcome x w.machine with ⟨_ | _, m⟩ <;> rfl

lemma Erases.ite {p : Prop} [Decidable p] {x x' : WatchedRun α} {y y' : Run β} {act : α → β}
    (ht : Erases x y act) (hf : Erases x' y' act) :
    Erases (if p then x else x') (if p then y else y') act := by
  split
  · exact ht
  · exact hf

lemma Erases.map {x : WatchedRun α} {y : Run β} {act : α → β} (h : Erases x y act) {f : α → γ}
    {g : β → δ} {act' : γ → δ} (hf : ∀ a, act' (f a) = g (act a)) :
    Erases (f <$> x) (g <$> y) act' := by
  rw [← bind_pure_comp, ← bind_pure_comp]
  exact h.bind fun a => erases_pure (hf a)

lemma erases_get {f : Watch → WatchedRun α} {g : Machine → Run β} {act : α → β}
    (h : ∀ w, Erases (f w) (g w.machine) act) : Erases (get >>= f) (get >>= g) act := by
  intro w
  simp only [outcome_bind, outcome_get]
  exact h w w

/-- What is written into the journal is not seen by the run. -/
lemma Erases.silently {x : WatchedRun Unit}
    (hx : ∀ w, ∃ journal, outcome x w = (.ok (), { w with journal }))
    {f : Unit → WatchedRun α} {y : Run β} {act : α → β} (h : Erases (f ()) y act) :
    Erases (x >>= f) y act := by
  intro w
  obtain ⟨journal, hw⟩ := hx w
  rw [outcome_bind, hw]
  exact h { w with journal }

lemma note_silent (node : Expr) (site : Site) (w : Watch) :
    ∃ journal, outcome (note node site) w = (.ok (), { w with journal }) := ⟨_, rfl⟩

lemma Erases.noted {node : Expr} {site : Site} {f : Unit → WatchedRun α} {y : Run β} {act : α → β}
    (h : Erases (f ()) y act) : Erases (note node site >>= f) y act :=
  h.silently (note_silent node site)

lemma noteAssignment_silent (node : Expr) (site : Site) (w : Watch) :
    ∃ journal, outcome (noteAssignment node site) w = (.ok (), { w with journal }) := ⟨_, rfl⟩

lemma record_silent (f : Journal → Journal) (w : Watch) :
    ∃ journal, outcome (record f) w = (.ok (), { w with journal }) := ⟨_, rfl⟩

lemma newFunction_erases (closure : Closure) (site : Site) :
    Erases (newFunction closure site) (Run.newFunction closure) id :=
  Erases.silently (record_silent _) (erases_lift (Run.newFunction closure))

lemma within_erases (frame : FrameRef) {x : WatchedRun α} {y : Run β} {act : α → β}
    (h : Erases x y act) : Erases (within frame x) (Run.within frame y) act := by
  intro w
  rw [outcome_within]
  change ((outcome y { w.machine with current := frame }).1,
    { (outcome y { w.machine with current := frame }).2 with current := w.machine.current }) = _
  rw [h { w with machine.current := frame }]

section Calls

variable {run : Site → Stmt → WatchedRun Completion} {run' : Stmt → Run Completion}

lemma sequence_erases (h : ∀ site stated, Erases (run site stated) (run' stated) id) (site : Site)
    (body : List Stmt) : Erases (sequence run site body) (Run.sequence run' body) id := by
  induction body generalizing site with
  | nil => exact erases_pure rfl
  | cons stated rest ih =>
    refine (h site stated).andThen fun completion => ?_
    cases completion with
    | normal => exact ih _
    | returned value => exact erases_pure rfl

lemma evaluateEach_erases {run : Expr → WatchedRun Value} {run' : Expr → Run Value}
    (h : ∀ value, Erases (run value) (run' value) id) (values : List Expr) :
    Erases (evaluateEach run values) (Run.evaluateEach run' values) id := by
  induction values with
  | nil => exact erases_pure rfl
  | cons value rest ih =>
    exact (h value).andThen fun _ => ih.andThen fun _ => erases_pure rfl

lemma bound_erases (method : Closure) (type : ClassSite) (self : InstanceRef) :
    Erases (bound method type self) (Run.bound method self) Prod.fst := by
  rw [← bind_pure (Run.bound method self)]
  exact (erases_lift _).andThen fun _ => erases_pure rfl

lemma boundValue_erases (method : Closure) (type : ClassSite) (self : InstanceRef) :
    Erases (boundValue method type self) (Run.boundValue method self) id :=
  (bound_erases method type self).bind fun (closure, site) =>
    (newFunction_erases closure site).andThen fun _ => erases_pure rfl

lemma invoke_erases (h : ∀ site stated, Erases (run site stated) (run' stated) id)
    (closure : Closure) (site : Site) (arguments : List Value) :
    Erases (invoke run closure site arguments) (Run.invoke run' closure arguments) id := by
  refine (erases_lift _).andThen fun frame =>
    (within_erases frame (sequence_erases h _ _)).andThen fun _ => .ite ?_ (erases_pure rfl)
  exact erases_get fun _ => erases_pure rfl

lemma call_erases (h : ∀ site stated, Erases (run site stated) (run' stated) id)
    (callable : Callable) (site : Site) (type : ClassSite) (arguments : List Value) :
    Erases (call run callable site type arguments) (Run.call run' callable arguments) id := by
  cases callable with
  | native primitive =>
    cases primitive
    exact (erases_lift _).map fun _ => rfl
  | function closure => exact invoke_erases h closure site arguments
  | construct ref initializer =>
    refine (erases_lift _).andThen fun self => ?_
    cases initializer with
    | none => exact erases_pure rfl
    | some method =>
      exact (bound_erases method type self).bind fun (closure, site) =>
        (invoke_erases h closure site arguments).andThen fun _ => erases_pure rfl

lemma callValue_erases (h : ∀ site stated, Erases (run site stated) (run' stated) id)
    (callee : Value) (arguments : List Value) (line : Nat) :
    Erases (callValue run callee arguments line) (Run.callValue run' callee arguments line) id :=
  erases_get fun _ => (erases_lift _).andThen fun callable =>
    .ite (call_erases h callable _ _ arguments) (erases_lift _)

end Calls

lemma getProperty_erases (object : Value) (property : Name) :
    Erases (getProperty object property) (Run.getProperty object property) id := by
  cases object with
  | instanceAt self =>
    refine erases_get fun _ => (erases_lift _).andThen fun member => ?_
    cases member with
    | field value => exact erases_pure rfl
    | method closure => exact boundValue_erases _ _ _
  | nil | boolean | number | text | native | functionAt | classAt => exact erases_lift _

lemma getSuper_erases (keyword : Reference) (method : Name) :
    Erases (getSuper keyword method) (Run.getSuper keyword method) id :=
  erases_get fun _ => (erases_lift _).andThen fun _ => (erases_lift _).andThen fun _ =>
    boundValue_erases _ _ _

lemma superclassOf_erases (site : Site) (target : Reference) :
    Erases (superclassOf site target) (Run.superclassOf target) id :=
  Erases.silently (note_silent _ _) (erases_lift _)

lemma declareFunction_erases (site : Site) (decl : FunctionDecl) :
    Erases (declareFunction site decl) (Run.declareFunction decl) id :=
  (erases_lift _).andThen fun _ => (newFunction_erases _ _).andThen fun _ => erases_lift _

lemma makeClass_erases (decl : ClassDecl) (superclass : Option ClassRef) (scope : FrameRef)
    (type : ClassSite) :
    Erases (makeClass decl superclass scope type) (Run.makeClass decl superclass scope) id :=
  Erases.silently (record_silent _) (erases_lift (Run.makeClass decl superclass scope))

lemma declareClass_erases (site : Site) (decl : ClassDecl) :
    Erases (declareClass site decl) (Run.declareClass decl) id := by
  rw [Run.declareClass_eq]
  have hparent : Erases (decl.superclass.mapM (superclassOf (site.introducing decl.name)))
      (decl.superclass.mapM Run.superclassOf) id := by
    cases decl.superclass with
    | none => exact erases_pure rfl
    | some target => exact (superclassOf_erases _ target).map fun _ => rfl
  refine hparent.andThen fun superclass => (erases_lift _).andThen fun frame =>
    (erases_lift _).andThen fun _ => ?_
  have hrest (scope : FrameRef) : Erases
      (makeClass decl superclass scope ⟨site.introducing decl.name, superclass.map fun _ => scope⟩ >>=
        fun ref => lift (Run.define frame decl.name.text (.classAt ref)))
      (Run.makeClass decl superclass scope >>= fun ref =>
        Run.define frame decl.name.text (.classAt ref)) id :=
    (makeClass_erases _ _ _ _).andThen fun _ => erases_lift _
  cases superclass with
  | none => exact Erases.andThen (erases_pure rfl) hrest
  | some ref => exact (erases_lift _).andThen hrest

lemma option_erases {run : Expr → WatchedRun Value} {run' : Expr → Run Value}
    (h : ∀ value, Erases (run value) (run' value) id) (value : Option Expr) :
    Erases (value.elim (pure .nil) run) (value.elim (pure .nil) run') id := by
  cases value with
  | none => exact erases_pure rfl
  | some value => exact h value

structure Erasure (fuel : Nat) : Prop where
  evaluate : ∀ site value, Erases (WatchedRun.evaluate fuel site value) (Lox.evaluate fuel value) id
  execute : ∀ site stated, Erases (WatchedRun.execute fuel site stated) (Lox.execute fuel stated) id

variable {fuel : Nat}

lemma evaluate_erases (h : Erasure fuel) (site : Site) (value : Expr) :
    Erases (evaluate (fuel + 1) site value) (Lox.evaluate (fuel + 1) value) id := by
  cases value with
  | literal value =>
    have hvalue : Erases (pure (Value.ofLiteral value)) (pure (Value.ofLiteral value)) id :=
      erases_pure rfl
    exact hvalue.noted
  | grouping inner => exact (h.evaluate site inner).noted
  | unary op line operand =>
    exact ((h.evaluate site operand).andThen fun _ => erases_lift _).noted
  | binary op line left right =>
    exact ((h.evaluate site left).andThen fun _ => (h.evaluate site right).andThen fun _ =>
      erases_lift _).noted
  | logical op line left right =>
    exact ((h.evaluate site left).andThen fun _ =>
      .ite (erases_pure rfl) (h.evaluate site right)).noted
  | read target | this target => exact (erases_lift (Run.read target)).noted
  | assign target value =>
    have hwrite (value : Value) : Erases (lift (Run.assign target value) >>= fun _ => pure value)
        (Run.assign target value >>= fun _ => pure value) id :=
      (erases_lift _).andThen fun _ => erases_pure rfl
    exact ((h.evaluate site value).andThen fun value =>
      (hwrite value).silently (noteAssignment_silent _ _)).noted
  | call callee arguments line =>
    exact ((h.evaluate site callee).andThen fun callee =>
      (evaluateEach_erases (h.evaluate site) arguments).andThen fun given =>
        callValue_erases h.execute callee given line).noted
  | get object property =>
    exact ((h.evaluate site object).andThen fun object => getProperty_erases object property).noted
  | set object property value =>
    refine Erases.noted ((h.evaluate site object).andThen fun object => ?_)
    cases object with
    | instanceAt self =>
      exact (h.evaluate site value).andThen fun _ => (erases_lift _).andThen fun _ =>
        erases_pure rfl
    | nil | boolean | number | text | native | functionAt | classAt => exact erases_lift _
  | super keyword method => exact (getSuper_erases keyword method).noted

lemma execute_erases (h : Erasure fuel) (site : Site) (stated : Stmt) :
    Erases (execute (fuel + 1) site stated) (Lox.execute (fuel + 1) stated) id := by
  cases stated with
  | expression value => exact (h.evaluate site value).andThen fun _ => erases_pure rfl
  | print line value =>
    exact (h.evaluate site value).andThen fun _ => erases_get fun _ =>
      (erases_lift _).andThen fun _ => erases_pure rfl
  | varDecl name initial =>
    exact (option_erases (h.evaluate _) initial).andThen fun _ => (erases_lift _).andThen fun _ =>
      (erases_lift _).andThen fun _ => erases_pure rfl
  | functionDecl decl => exact (declareFunction_erases site decl).andThen fun _ => erases_pure rfl
  | classDecl decl => exact (declareClass_erases site decl).andThen fun _ => erases_pure rfl
  | block body =>
    exact (erases_lift _).andThen fun _ => (erases_lift _).andThen fun frame =>
      within_erases frame (sequence_erases h.execute _ body)
  | ifElse condition thenBranch elseBranch =>
    refine (h.evaluate site condition).andThen fun _ => .ite (h.execute site thenBranch) ?_
    cases elseBranch with
    | none => exact erases_pure rfl
    | some elseBranch => exact h.execute _ elseBranch
  | whileLoop condition body =>
    refine (h.evaluate site condition).andThen fun _ => .ite ?_ (erases_pure rfl)
    refine (h.execute site body).andThen fun completion => ?_
    cases completion with
    | normal => exact h.execute site (.whileLoop condition body)
    | returned value => exact erases_pure rfl
  | ret keyword value =>
    exact (option_erases (h.evaluate site) value).andThen fun _ => erases_pure rfl

lemma erasure (fuel : Nat) : Erasure fuel := by
  induction fuel with
  | zero => constructor <;> intros <;> exact erases_throw _ _
  | succ fuel ih => exact ⟨evaluate_erases ih, execute_erases ih⟩

lemma executeProgram_erases (fuel : Nat) (site : Site) (program : Program) :
    Erases (executeProgram fuel site program) (Program.execute fuel program) id := by
  induction program generalizing site with
  | nil => exact erases_pure rfl
  | cons stated rest ih => exact ((erasure fuel).execute site stated).andThen fun _ => ih _

end WatchedRun

end Lox
