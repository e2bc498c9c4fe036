import Lox.Proofs.Machine.Oblivious
import Lox.Proofs.Trace.Evaluate

/-! Relations between runs with a trace and runs without that go from the steps of a run to the whole, by
induction on the fuel. -/

namespace Lox

def Deed.IsSilent : Deed → Prop
  | prints .. => False
  | returns .. | ends .. | finishes .. => True

namespace TracedRun

/-- The relation goes from the steps of a run to the whole. Besides printing, no step sees what is
written, and what else is recorded does not matter. -/
structure Transfers (R : ∀ α : Type, TracedRun α → Run α → Prop) : Prop where
  pure : ∀ {α : Type} (a : α), R α (pure a) (pure a)
  throw : ∀ {α : Type} (halt : Halt), R α (throw halt) (throw halt)
  bind : ∀ {α β : Type} {x : TracedRun α} {y : Run α} {f : α → TracedRun β} {g : α → Run β},
    R α x y → (∀ a, R β (f a) (g a)) → R β (x >>= f) (y >>= g)
  lift : ∀ {α : Type} {x : Run α}, Run.Oblivious x → R α (lift x) x
  look : ∀ {α β : Type} {f : α → TracedRun β} (seen : Machine → α) (g : α → Run β),
    (∀ m output, seen { m with output } = seen m) → (∀ a, R β (f a) (g a)) →
      R β (look seen >>= f) (get >>= fun m => g (seen m))
  within : ∀ {α : Type} {x : TracedRun α} {y : Run α} (frame : FrameRef),
    R α x y → R α (within frame x) (Run.within frame y)
  print : ∀ (text : String) (line : Nat), R Unit (print text line) (Run.print text line)
  record : ∀ {α : Type} {deed : Deed} {f : Unit → TracedRun α} {y : Run α},
    deed.IsSilent → R α (f ()) y → R α (record deed >>= f) y
  newCall : ∀ {α : Type} {f : Nat → TracedRun α} {y : Run α},
    (∀ call, R α (f call) y) → R α (newCall >>= f) y

namespace Transfers

variable {R : ∀ α : Type, TracedRun α → Run α → Prop}

lemma branch {α : Type} {p : Prop} [Decidable p] {x x' : TracedRun α} {y y' : Run α} (ht : R α x y)
    (hf : R α x' y') : R α (if p then x else x') (if p then y else y') := by
  split
  · exact ht
  · exact hf

variable (h : Transfers R)

include h

lemma yield {α β : Type} {x : TracedRun α} {y : Run α} (hx : R α x y) (f : α → β) :
    R β (x >>= fun a => Pure.pure (f a)) (y >>= fun a => Pure.pure (f a)) :=
  h.bind hx fun a => h.pure (f a)

lemma fail {α : Type} (cause : RuntimeError.Cause) (line : Nat) :
    R α (TracedRun.lift (Run.fail cause line)) (Run.fail cause line) :=
  h.lift (Run.oblivious_fail cause line)

lemma option {run : Expr → TracedRun Value} {run' : Expr → Run Value}
    (hrun : ∀ value, R Value (run value) (run' value)) (value : Option Expr) :
    R Value (value.elim (Pure.pure .nil) run) (value.elim (Pure.pure .nil) run') := by
  cases value with
  | none => exact h.pure _
  | some value => exact hrun value

lemma evaluateEach {run : Expr → TracedRun Value} {run' : Expr → Run Value}
    (hrun : ∀ value, R Value (run value) (run' value)) (values : List Expr) :
    R (List Value) (TracedRun.evaluateEach run values) (Run.evaluateEach run' values) := by
  induction values with
  | nil => exact h.pure _
  | cons value rest ih => exact h.bind (hrun value) fun value => h.yield ih (value :: ·)

lemma sequence {run : Stmt → TracedRun Completion} {run' : Stmt → Run Completion}
    (hrun : ∀ stated, R Completion (run stated) (run' stated)) (body : List Stmt) :
    R Completion (TracedRun.sequence run body) (Run.sequence run' body) := by
  induction body with
  | nil => exact h.pure _
  | cons stated rest ih =>
    refine h.bind (hrun stated) fun completion => ?_
    cases completion with
    | normal => exact ih
    | returned value => exact h.pure _

lemma conclude (call : Nat) (closure : Closure) (completion : Completion) :
    R Value (TracedRun.conclude call closure completion)
      (if closure.isInitializer then
        get >>= fun m => Pure.pure ((m.frames.lookup? closure.scope Scope.thisName).getD .nil)
      else Pure.pure completion.value) := by
  have hends (result : Value) : R Value
      (TracedRun.record (.ends call closure completion result) >>= fun _ => Pure.pure result)
      (Pure.pure result) :=
    h.record trivial (h.pure result)
  rw [TracedRun.conclude]
  split
  · exact h.look (fun m => (m.frames.lookup? closure.scope Scope.thisName).getD .nil) Pure.pure
      (fun _ _ => rfl) hends
  · exact hends completion.value

section Calls

variable {run : Option Nat → Stmt → TracedRun Completion} {run' : Stmt → Run Completion}
  (hrun : ∀ call stated, R Completion (run call stated) (run' stated))

include hrun

lemma invoke (closure : Closure) (arguments : List Value) :
    R Value (TracedRun.invoke run closure arguments) (Run.invoke run' closure arguments) :=
  h.newCall fun call => h.bind (h.lift (Run.oblivious_newFrame _ _)) fun frame =>
    h.bind (h.within frame (h.sequence (hrun (some call)) _)) (h.conclude call closure)

lemma call (callable : Callable) (arguments : List Value) :
    R Value (TracedRun.call run callable arguments) (Run.call run' callable arguments) := by
  cases callable with
  | native primitive =>
    cases primitive
    rw [TracedRun.call, Run.call, ← bind_pure_comp, ← bind_pure_comp]
    exact h.yield (h.lift Run.oblivious_readClock) Value.number
  | function closure => exact h.invoke hrun closure arguments
  | construct ref initializer =>
    refine h.bind (h.lift (Run.oblivious_newInstance ref)) fun self => ?_
    cases initializer with
    | none => exact h.pure _
    | some method =>
      exact h.bind (h.lift (Run.oblivious_bound method self)) fun closure =>
        h.yield (h.invoke hrun closure arguments) fun _ => Value.instanceAt self

lemma callValue (callee : Value) (arguments : List Value) (line : Nat) :
    R Value (TracedRun.callValue run callee arguments line)
      (Run.callValue run' callee arguments line) := by
  refine h.look (·.callable? callee) (fun found => Run.require found .notCallable line >>= _)
    (fun m output => Run.callable?_output m output callee) fun found => ?_
  exact h.bind (h.lift (Run.oblivious_require _ _ _)) fun callable =>
    branch (h.call hrun callable arguments) (h.fail _ _)

end Calls

/-- The relation holds of all runs with this much fuel. -/
structure At (R : ∀ α : Type, TracedRun α → Run α → Prop) (fuel : Nat) : Prop where
  evaluate : ∀ value, R Value (TracedRun.evaluate fuel value) (Lox.evaluate fuel value)
  execute : ∀ call stated,
    R Completion (TracedRun.execute fuel call stated) (Lox.execute fuel stated)

lemma evaluate {fuel : Nat} (ih : At R fuel) (value : Expr) :
    R Value (TracedRun.evaluate (fuel + 1) value) (Lox.evaluate (fuel + 1) value) := by
  cases value with
  | literal value => exact h.pure _
  | grouping inner => exact ih.evaluate inner
  | unary op line operand =>
    exact h.bind (ih.evaluate operand) fun _ => h.lift (Run.oblivious_ofResult _ _)
  | binary op line left right =>
    exact h.bind (ih.evaluate left) fun _ => h.bind (ih.evaluate right) fun _ =>
      h.lift (Run.oblivious_ofResult _ _)
  | logical op line left right =>
    exact h.bind (ih.evaluate left) fun left => branch (h.pure left) (ih.evaluate right)
  | read target => exact h.lift (Run.oblivious_read target)
  | assign target value =>
    exact h.bind (ih.evaluate value) fun value =>
      h.yield (h.lift (Run.oblivious_assign target value)) fun _ => value
  | call callee arguments line =>
    exact h.bind (ih.evaluate callee) fun callee =>
      h.bind (h.evaluateEach ih.evaluate arguments) fun given =>
        h.callValue ih.execute callee given line
  | get object property =>
    exact h.bind (ih.evaluate object) fun object => h.lift (Run.oblivious_getProperty object property)
  | set object property value =>
    refine h.bind (ih.evaluate object) fun object => ?_
    cases object with
    | instanceAt self =>
      exact h.bind (ih.evaluate value) fun value =>
        h.yield (h.lift (Run.oblivious_setField self _ value)) fun _ => value
    | nil | boolean | number | text | native | functionAt | classAt => exact h.fail _ _
  | this keyword => exact h.lift (Run.oblivious_read keyword)
  | super keyword method => exact h.lift (Run.oblivious_getSuper keyword method)

lemma execute {fuel : Nat} (ih : At R fuel) (call : Option Nat) (stated : Stmt) :
    R Completion (TracedRun.execute (fuel + 1) call stated) (Lox.execute (fuel + 1) stated) := by
  cases stated with
  | expression value => exact h.yield (ih.evaluate value) fun _ => Completion.normal
  | print line value =>
    refine h.bind (ih.evaluate value) fun value => ?_
    exact h.look (·.textOf value) (fun text => Run.print text line >>= fun _ => Pure.pure Completion.normal)
      (fun m output => Run.textOf_output m output value) fun text =>
        h.yield (h.print text line) fun _ => Completion.normal
  | varDecl name initial =>
    exact h.bind (h.option ih.evaluate initial) fun value =>
      h.bind (h.lift Run.oblivious_currentFrame) fun frame =>
        h.yield (h.lift (Run.oblivious_define frame _ value)) fun _ => Completion.normal
  | functionDecl decl =>
    exact h.yield (h.lift (Run.oblivious_declareFunction decl)) fun _ => Completion.normal
  | classDecl decl => exact h.yield (h.lift (Run.oblivious_declareClass decl)) fun _ => Completion.normal
  | block body =>
    exact h.bind (h.lift Run.oblivious_currentFrame) fun _ =>
      h.bind (h.lift (Run.oblivious_newFrame _ _)) fun frame =>
        h.within frame (h.sequence (ih.execute call) body)
  | ifElse condition thenBranch elseBranch =>
    refine h.bind (ih.evaluate condition) fun _ => branch (ih.execute call thenBranch) ?_
    cases elseBranch with
    | none => exact h.pure _
    | some elseBranch => exact ih.execute call elseBranch
  | whileLoop condition body =>
    refine h.bind (ih.evaluate condition) fun _ => branch ?_ (h.pure _)
    refine h.bind (ih.execute call body) fun completion => ?_
    cases completion with
    | normal => exact ih.execute call (.whileLoop condition body)
    | returned value => exact h.pure _
  | ret keyword value =>
    exact h.bind (h.option ih.evaluate value) fun result => h.record trivial (h.pure _)

lemma at_fuel (fuel : Nat) : At R fuel := by
  induction fuel with
  | zero => constructor <;> intros <;> exact h.throw _
  | succ fuel ih => exact ⟨h.evaluate ih, h.execute ih⟩

lemma program (fuel : Nat) (program : Program) :
    R Unit (executeProgram fuel program) (Program.execute fuel program) := by
  induction program with
  | nil => exact h.pure _
  | cons stated rest ih =>
    exact h.bind ((h.at_fuel fuel).execute none stated) fun _ => h.record trivial ih

end Transfers

end TracedRun

end Lox
