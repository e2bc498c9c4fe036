import Lox.Eval.Evaluate
import Lox.Proofs.Ancestry.Chains
import Lox.Proofs.Machine.Methods

/-! What is executed when a value is called. -/

namespace Lox

namespace Run

variable {execute : Stmt → Run Completion}

/-- A call where the initializer of a class is searched for twice: for the number of arguments, and again
when the instance is made. -/
def callSearching (execute : Stmt → Run Completion) (callee : Value) (arguments : List Value)
    (line : Nat) : Run Value :=
  match callee with
  | .classAt ref => do
    let arity := ((← get).method? ref initializerName).elim 0 Closure.arity
    if arguments.length = arity then
      let self ← newInstance ref
      if let some method := (← get).method? ref initializerName then
        let _ ← invoke execute (← bound method self) arguments
      return .instanceAt self
    else fail (.arityMismatch arity arguments.length) line
  | callee => callValue execute callee arguments line

lemma outcome_callValue {m : Machine} {callee : Value} {callable : Callable}
    (h : m.callable? callee = some callable) (arguments : List Value) (line : Nat) :
    outcome (callValue execute callee arguments line) m =
      outcome (if arguments.length = callable.arity then call execute callable arguments
        else fail (.arityMismatch callable.arity arguments.length) line) m := by
  simp only [callValue, outcome_bind, outcome_get, h, require, outcome_pure]

lemma outcome_callSearching (callee : Value) (arguments : List Value) (line : Nat) (m : Machine) :
    outcome (callSearching execute callee arguments line) m =
      outcome (callValue execute callee arguments line) m := by
  cases callee with
  | classAt ref =>
    -- Between the two searches an instance is made, and no class.
    have hagain : Machine.method? { m with instances := m.instances.push ⟨ref, ∅⟩ } ref initializerName =
        m.method? ref initializerName := by
      apply Machine.method?_of_classes
      rfl
    have harity : (m.method? ref initializerName).elim 0 Closure.arity =
        (Callable.construct ref (m.method? ref initializerName)).arity := rfl
    rw [outcome_callValue rfl]
    simp only [callSearching, outcome_bind, outcome_get, harity]
    split
    · cases hfound : m.method? ref initializerName <;>
        simp only [call, newInstance, outcome_bind, outcome_modifyGet, outcome_get, hagain, hfound]
    · rfl
  | nil | boolean | number | text | native | functionAt | instanceAt => rfl

/-- What a call yields when the body of the function has come to its end. -/
def conclude (closure : Closure) (completion : Completion) : Run Value :=
  if closure.isInitializer then
    get >>= fun m => pure ((m.frames.lookup? closure.scope Scope.thisName).getD .nil)
  else pure completion.value

def parameters (closure : Closure) (arguments : List Value) : Bindings Value :=
  (∅ : Bindings Value).insertAll ((closure.decl.params.map Name.text).zip arguments)

lemma outcome_invoke (closure : Closure) (arguments : List Value) (m : Machine) :
    outcome (invoke execute closure arguments) m =
      outcome (within m.frames.next (sequence execute closure.decl.body) >>= conclude closure)
        { m with frames := m.frames.push closure.scope (parameters closure arguments) } := rfl

end Run

namespace Machine

/-- The function whose body is executed when the value is called, if there is one: for a class, the
initializer that is found upward from it. -/
def body? (m : Machine) : Value → Option FunctionDecl
  | .functionAt ref => (m.function? ref).map Closure.decl
  | .classAt ref => (m.method? ref initializerName).map Closure.decl
  | _ => none

/-- Calling the value executes the body of the function, whatever its statements do. That is done in a frame
made for the call, in which every parameter is bound: to its argument, or to that of the last parameter of
the same name. -/
structure Enters (m : Machine) (callee : Value) (arguments : List Value) (decl : FunctionDecl)
    (entered : Machine) (frame : FrameRef) (conclude : Completion → Run Value) : Prop where
  arity : decl.params.length = arguments.length
  fresh : m.frames.all.size ≤ frame.index
  lookup? : ∀ name, entered.frames.lookup? frame name =
    ((decl.params.zip arguments).filter (·.1.text == name)).getLast?.map Prod.snd
  binds : ∀ param ∈ decl.params, entered.frames.binds frame param.text = true
  outcome : ∀ execute line, outcome (Run.callValue execute callee arguments line) m =
    outcome (Run.within frame (Run.sequence execute decl.body) >>= conclude) entered

variable {m : Machine} {callee : Value} {callable : Callable} {arguments : List Value}
  {closure : Closure} {decl : FunctionDecl}

lemma get?_parameters (closure : Closure) (arguments : List Value) (name : String) :
    (Run.parameters closure arguments).get? name =
      ((closure.decl.params.zip arguments).filter (·.1.text == name)).getLast?.map Prod.snd := by
  rw [Run.parameters, List.zip_map_left]
  exact Bindings.get?_insertAll (closure.decl.params.zip arguments) (·.1.text) Prod.snd name

lemma contains_parameters (h : closure.decl.params.length = arguments.length) {param : Name}
    (hp : param ∈ closure.decl.params) :
    (Run.parameters closure arguments).contains param.text = true := by
  rw [Run.parameters, Bindings.contains_insertAll]
  refine .inr ?_
  rw [List.map_fst_zip (by simp [h])]
  exact List.mem_map_of_mem hp

lemma enters_of_invoke (closure : Closure) (entered : Machine) (k : Value → Run Value)
    (harity : closure.decl.params.length = arguments.length)
    (hsize : m.frames.all.size ≤ entered.frames.all.size)
    (hcall : ∀ execute line, Lox.outcome (Run.callValue execute callee arguments line) m =
      Lox.outcome (Run.invoke execute closure arguments >>= k) entered) :
    ∃ entered frame conclude, m.Enters callee arguments closure.decl entered frame conclude := by
  refine ⟨{ entered with
      frames := entered.frames.push closure.scope (Run.parameters closure arguments) },
    entered.frames.next, fun completion => Run.conclude closure completion >>= k,
    harity, hsize, fun name => ?_, fun param hparam => ?_, fun execute line => ?_⟩
  · rw [Frames.lookup?_push, if_pos rfl, get?_parameters]
  · rw [Frames.binds, Frames.lookup?_push, if_pos rfl]
    exact contains_parameters harity hparam
  · rw [hcall, outcome_bind, Run.outcome_invoke, ← outcome_bind, bind_assoc]

section Calls

variable (h : m.callable? callee = some callable) (harity : arguments.length = callable.arity)

include h harity

lemma outcome_call (execute : Stmt → Run Completion) (line : Nat) :
    outcome (Run.callValue execute callee arguments line) m =
      outcome (Run.call execute callable arguments) m := by
  rw [Run.outcome_callValue h, if_pos harity]

lemma exists_enters (hbody : m.body? callee = some decl) :
    ∃ entered frame conclude, m.Enters callee arguments decl entered frame conclude := by
  have hcall := outcome_call h harity
  cases callee with
  | functionAt ref =>
    obtain ⟨closure, hclosure, rfl⟩ := Option.map_eq_some_iff.mp hbody
    obtain rfl : .function closure = callable := by simpa [callable?, hclosure] using h
    refine enters_of_invoke closure m pure harity.symm (Nat.le_refl _) fun execute line => ?_
    rw [hcall, bind_pure]
    rfl
  | classAt ref =>
    obtain ⟨closure, hclosure, rfl⟩ := Option.map_eq_some_iff.mp hbody
    obtain rfl : .construct ref (some closure) = callable := by simpa [callable?, hclosure] using h
    -- The initializer is bound to the new instance before its body is executed.
    let self : Value := .instanceAt ⟨m.instances.size⟩
    exact enters_of_invoke { closure with scope := m.frames.next }
      { m with
        instances := m.instances.push ⟨ref, ∅⟩
        frames := m.frames.push closure.scope ((∅ : Bindings Value).insert Scope.thisName self) }
      (fun _ => pure self) harity.symm (by simp [Frames.push]) hcall
  | nil | boolean | number | text | native | instanceAt => simp [body?] at hbody

lemma enters_nothing (hbody : m.body? callee = none) :
    arguments = [] ∧ ∀ execute execute' line,
      outcome (Run.callValue execute callee arguments line) m =
        outcome (Run.callValue execute' callee arguments line) m := by
  have hcall := outcome_call h harity
  cases callee with
  | native primitive =>
    obtain rfl := Option.some.inj h
    cases primitive
    refine ⟨List.length_eq_zero_iff.mp harity, fun execute execute' line => ?_⟩
    rw [hcall, hcall]
    rfl
  | classAt ref =>
    obtain rfl : .construct ref none = callable := by
      simpa [callable?, Option.map_eq_none_iff.mp hbody] using h
    refine ⟨List.length_eq_zero_iff.mp harity, fun execute execute' line => ?_⟩
    rw [hcall, hcall]
    rfl
  | functionAt ref => simp [callable?, Option.map_eq_none_iff.mp hbody] at h
  | nil | boolean | number | text | instanceAt => simp [callable?] at h

end Calls

end Machine

end Lox
