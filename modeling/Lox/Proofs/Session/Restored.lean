import Lox.Proofs.Machine.Quiet
import Lox.Proofs.Session.Reports

/-! Whatever is run on a machine, and however that ends, the current frame and the binding table are
afterwards what they were before. Only the frames between are entered and left. -/

namespace Lox

/-- The machine goes on at the same frame, with the same table. -/
structure Machine.Resumes (m m' : Machine) : Prop where
  current : m'.current = m.current
  table : m'.table = m.table

lemma Machine.Resumes.trans {m m' m'' : Machine} (h : m.Resumes m') (h' : m'.Resumes m'') :
    m.Resumes m'' :=
  ⟨h'.current.trans h.current, h'.table.trans h.table⟩

namespace Run

variable {α β : Type}

def Restores (x : Run α) : Prop :=
  ∀ m : Machine, m.Resumes (outcome x m).2

section Rules

lemma Quiet.restores {x : Run α} (h : Quiet x) : Restores x :=
  fun m => ⟨(h m).current, (h m).table⟩

lemma restores_pure (a : α) : Restores (pure a) :=
  (quiet_pure a).restores

lemma restores_throw (halt : Halt) : Restores (throw halt : Run α) :=
  fun _ => ⟨rfl, rfl⟩

lemma Restores.bind {x : Run α} {f : α → Run β} (hx : Restores x) (hf : ∀ a, Restores (f a)) :
    Restores (x >>= f) := by
  intro m
  have hfirst := hx m
  rw [outcome_bind]
  rcases ho : outcome x m with ⟨_ | a, m'⟩ <;> rw [ho] at hfirst
  · exact hfirst
  · exact hfirst.trans (hf a m')

lemma Restores.yield {x : Run α} (hx : Restores x) (f : α → β) :
    Restores (x >>= fun a => pure (f a)) :=
  hx.bind fun a => restores_pure (f a)

lemma Restores.map {x : Run α} (hx : Restores x) (f : α → β) : Restores (f <$> x) := by
  rw [← bind_pure_comp]
  exact hx.yield f

lemma restores_get {f : Machine → Run α} (h : ∀ m, Restores (f m)) : Restores (get >>= f) :=
  Restores.bind (fun _ => ⟨rfl, rfl⟩) h

lemma restores_ite {c : Prop} [Decidable c] {x y : Run α} (hx : Restores x) (hy : Restores y) :
    Restores (if c then x else y) := by
  split
  · exact hx
  · exact hy

/-- The frame that was current is entered again, and the body has kept the table. -/
lemma restores_within {body : Run α} (h : Restores body) (frame : FrameRef) :
    Restores (within frame body) := by
  intro m
  rw [outcome_within]
  exact ⟨rfl, (h { m with current := frame }).table⟩

end Rules

section Steps

lemma restores_currentFrame : Restores currentFrame :=
  fun _ => ⟨rfl, rfl⟩

lemma restores_newFunction (closure : Closure) : Restores (newFunction closure) :=
  fun _ => ⟨rfl, rfl⟩

lemma restores_define (frame : FrameRef) (name : String) (value : Value) :
    Restores (define frame name value) :=
  fun _ => ⟨rfl, rfl⟩

lemma restores_assign (target : Reference) (value : Value) : Restores (assign target value) :=
  restores_get fun _ => (quiet_require _ _ _).restores.bind fun _ => restores_define _ _ _

end Steps

lemma sequence_restores {run : Stmt → Run Completion} (h : ∀ stated, Restores (run stated))
    (body : List Stmt) : Restores (sequence run body) := by
  induction body with
  | nil => exact restores_pure _
  | cons stated rest ih =>
    refine (h stated).bind fun completion => ?_
    cases completion with
    | normal => exact ih
    | returned value => exact restores_pure _

lemma evaluateEach_restores {run : Expr → Run Value} (h : ∀ value, Restores (run value))
    (values : List Expr) : Restores (evaluateEach run values) := by
  induction values with
  | nil => exact restores_pure _
  | cons value rest ih => exact (h value).bind fun _ => ih.yield _

lemma bound_restores (method : Closure) (self : InstanceRef) : Restores (bound method self) :=
  (quiet_newFrame _ _).restores.yield _

lemma boundValue_restores (method : Closure) (self : InstanceRef) :
    Restores (boundValue method self) :=
  (bound_restores method self).bind fun _ => (restores_newFunction _).yield _

section Calls

variable {run : Stmt → Run Completion} (h : ∀ stated, Restores (run stated))

include h

lemma invoke_restores (closure : Closure) (arguments : List Value) :
    Restores (invoke run closure arguments) := by
  refine (quiet_newFrame _ _).restores.bind fun frame => ?_
  have hbody := restores_within (sequence_restores h closure.decl.body) frame
  refine hbody.bind fun completion => ?_
  exact restores_ite (restores_get fun _ => restores_pure _) (restores_pure _)

lemma call_restores (callable : Callable) (arguments : List Value) :
    Restores (call run callable arguments) := by
  cases callable with
  | native primitive =>
    cases primitive
    exact quiet_readClock.restores.map _
  | function closure => exact invoke_restores h closure arguments
  | construct ref initializer =>
    refine (quiet_newInstance ref).restores.bind fun self => ?_
    cases initializer with
    | none => exact restores_pure _
    | some method =>
      refine (bound_restores method self).bind fun closure => ?_
      exact (invoke_restores h closure arguments).yield _

lemma callValue_restores (callee : Value) (arguments : List Value) (line : Nat) :
    Restores (callValue run callee arguments line) :=
  restores_get fun _ => (quiet_require _ _ _).restores.bind fun callable =>
    restores_ite (call_restores h callable arguments) (quiet_fail _ _).restores

end Calls

lemma getProperty_restores (object : Value) (property : Name) :
    Restores (getProperty object property) := by
  cases object with
  | instanceAt self =>
    refine restores_get fun _ => (quiet_require _ _ _).restores.bind fun member => ?_
    cases member with
    | field value => exact restores_pure _
    | method method => exact boundValue_restores method self
  | nil | boolean | number | text | native | functionAt | classAt => exact (quiet_fail _ _).restores

lemma getSuper_restores (keyword : Reference) (method : Name) :
    Restores (getSuper keyword method) :=
  restores_get fun _ => (quiet_require _ _ _).restores.bind fun _ =>
    (quiet_require _ _ _).restores.bind fun _ => boundValue_restores _ _

lemma declareFunction_restores (decl : FunctionDecl) : Restores (declareFunction decl) :=
  restores_currentFrame.bind fun _ => (restores_newFunction _).bind fun _ => restores_define _ _ _

/-- The frame that is entered for the methods is left again before the name is bound. -/
lemma declareClass_restores (decl : ClassDecl) : Restores (declareClass decl) := by
  have hparent : Restores (decl.superclass.mapM superclassOf) := by
    cases decl.superclass with
    | none => exact restores_pure _
    | some target => exact (quiet_superclassOf target).restores.map _
  refine hparent.bind fun superclass m => ?_
  cases superclass with
  | none => exact ⟨rfl, rfl⟩
  | some ref => exact ⟨rfl, rfl⟩

lemma option_restores {run : Expr → Run Value} (h : ∀ value, Restores (run value))
    (value : Option Expr) : Restores (value.elim (pure .nil) run) := by
  cases value with
  | none => exact restores_pure _
  | some value => exact h value

section Evaluation

variable {fuel : Nat}

lemma evaluate_restores (h : ∀ value, Restores (evaluate fuel value))
    (hx : ∀ stated, Restores (execute fuel stated)) (value : Expr) :
    Restores (evaluate (fuel + 1) value) := by
  cases value with
  | literal value => exact restores_pure _
  | grouping inner => exact h inner
  | unary op line operand => exact (h operand).bind fun _ => (quiet_ofResult _ _).restores
  | binary op line left right =>
    exact (h left).bind fun _ => (h right).bind fun _ => (quiet_ofResult _ _).restores
  | logical op line left right =>
    exact (h left).bind fun _ => restores_ite (restores_pure _) (h right)
  | read target | this target => exact (quiet_read target).restores
  | assign target value =>
    exact (h value).bind fun given => (restores_assign target given).yield _
  | call callee arguments line =>
    refine (h callee).bind fun called => (evaluateEach_restores h arguments).bind fun given => ?_
    exact callValue_restores hx called given line
  | get object property => exact (h object).bind fun found => getProperty_restores found property
  | set object property value =>
    refine (h object).bind fun found => ?_
    cases found with
    | instanceAt self =>
      exact (h value).bind fun _ => (quiet_setField _ _ _).restores.yield _
    | nil | boolean | number | text | native | functionAt | classAt => exact (quiet_fail _ _).restores
  | super keyword method => exact getSuper_restores keyword method

lemma execute_restores (h : ∀ value, Restores (evaluate fuel value))
    (hx : ∀ stated, Restores (execute fuel stated)) (stated : Stmt) :
    Restores (execute (fuel + 1) stated) := by
  cases stated with
  | expression value => exact (h value).yield _
  | print line value =>
    exact (h value).bind fun _ => restores_get fun _ => (quiet_print _ _).restores.yield _
  | varDecl name initial =>
    exact (option_restores h initial).bind fun _ => restores_currentFrame.bind fun _ =>
      (restores_define _ _ _).yield _
  | functionDecl decl => exact (declareFunction_restores decl).yield _
  | classDecl decl => exact (declareClass_restores decl).yield _
  | block body =>
    exact restores_currentFrame.bind fun _ => (quiet_newFrame _ _).restores.bind fun _ =>
      restores_within (sequence_restores hx body) _
  | ifElse condition thenBranch elseBranch =>
    refine (h condition).bind fun _ => restores_ite (hx thenBranch) ?_
    cases elseBranch with
    | none => exact restores_pure _
    | some elseBranch => exact hx elseBranch
  | whileLoop condition body =>
    refine (h condition).bind fun _ => restores_ite ((hx body).bind fun completion => ?_)
      (restores_pure _)
    cases completion with
    | normal => exact hx (.whileLoop condition body)
    | returned value => exact restores_pure _
  | ret keyword value => exact (option_restores h value).yield _

lemma all_restore (fuel : Nat) :
    (∀ value, Restores (evaluate fuel value)) ∧ ∀ stated, Restores (execute fuel stated) := by
  induction fuel with
  | zero => exact ⟨fun _ => restores_throw _, fun _ => restores_throw _⟩
  | succ fuel ih => exact ⟨evaluate_restores ih.1 ih.2, execute_restores ih.1 ih.2⟩

lemma program_restores (fuel : Nat) (program : Program) :
    Restores (Program.execute fuel program) := by
  induction program with
  | nil => exact restores_pure _
  | cons stated rest ih => exact ((all_restore fuel).2 stated).bind fun _ => ih

end Evaluation

end Run

namespace Session

variable (fuel : Nat) (session : Session)

lemma current_runBound (program : Program) (distances : List Distance) :
    (session.runBound fuel program distances).2.machine.current = session.machine.current := by
  rw [runBound_eq]
  exact (Run.program_restores fuel program _).current

lemma current_runTokens (binder : Binder) (tokens : List Token) :
    (session.runTokens fuel binder tokens).2.machine.current = session.machine.current := by
  unfold runTokens
  rcases Program.parse tokens session.nextId with ⟨errors | program, nextId⟩
  · rfl
  · cases hbinder : binder program with
    | error violations => simp only [hbinder]
    | ok distances =>
      simp only [hbinder]
      exact current_runBound fuel { session with nextId } program distances

lemma current_run (source : String) :
    (session.run fuel source).2.machine.current = session.machine.current := by
  unfold run
  cases Token.scan source with
  | error errors => rfl
  | ok tokens => exact current_runTokens fuel session Program.resolve tokens

lemma current_runAll (sources : List String) :
    (session.runAll fuel sources).2.machine.current = session.machine.current := by
  induction sources generalizing session with
  | nil => rfl
  | cons source rest ih => exact (ih _).trans (current_run fuel session source)

/-- What is run goes back to the frame it has started in: on every machine, with any binding table,
and whether it succeeds, returns, fails or runs out of fuel. So a program that comes after others in a
session, failed ones among them, starts in the global frame. -/
theorem current_restored (fuel : Nat) :
    (∀ (value : Expr) (m : Machine), (outcome (evaluate fuel value) m).2.current = m.current) ∧
      (∀ (stated : Stmt) (m : Machine),
        (outcome (execute fuel stated) m).2.current = m.current) ∧
      (∀ (callable : Callable) (arguments : List Value) (m : Machine),
        (outcome (Run.call (execute fuel) callable arguments) m).2.current = m.current) ∧
      (∀ (decl : ClassDecl) (m : Machine),
        (outcome (Run.declareClass decl) m).2.current = m.current) ∧
      (∀ (session : Session) (binder : Binder) (tokens : List Token),
        (session.runTokens fuel binder tokens).2.machine.current = session.machine.current) ∧
      (∀ (session : Session) (sources : List String),
        (session.runAll fuel sources).2.machine.current = session.machine.current) ∧
      ∀ (limit : Option Nat) (reading : Nat → Float) (sources : List String),
        ((initial limit reading).runAll fuel sources).2.machine.current = .globals := by
  have hall := Run.all_restore fuel
  refine ⟨fun value m => (hall.1 value m).current, fun stated m => (hall.2 stated m).current, ?_,
    fun decl m => (Run.declareClass_restores decl m).current, current_runTokens fuel,
    current_runAll fuel, fun limit reading => current_runAll fuel (initial limit reading)⟩
  exact fun callable arguments m => (Run.call_restores hall.2 callable arguments m).current

end Session

end Lox
