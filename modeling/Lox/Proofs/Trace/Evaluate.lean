import Lox.Session
import Lox.Proofs.Outcome

/-! Running with a trace: beside the machine it is kept what is printed, what is returned, how calls end
and how the statements of a program end. The run itself is the same. -/

namespace Lox

structure Return where
  keyword : Name
  value : Option Expr

/-- What is done in a run. Calls are numbered in the order in which they begin. -/
inductive Deed
  | prints (line : Nat) (bytes : ByteArray)
  /-- A value is returned in a call, or outside of all calls. -/
  | returns (call : Option Nat) (stated : Return) (value : Value)
  /-- The body of a function has come to its end, and the call has a result. -/
  | ends (call : Nat) (closure : Closure) (completion : Completion) (result : Value)
  /-- A statement of the program itself has come to its end. -/
  | finishes (stated : Stmt) (completion : Completion)

/-- A machine with the number of calls begun, and what has been done, the latest last. -/
structure Trace where
  machine : Machine
  calls : Nat
  deeds : List Deed

/-- A run with a trace. -/
abbrev TracedRun := ExceptT Halt (StateM Trace)

namespace TracedRun

variable {α : Type}

def lift (x : Run α) : TracedRun α :=
  ExceptT.mk (StateT.mk fun t =>
    pure ((outcome x t.machine).1, { t with machine := (outcome x t.machine).2 }))

/-- What there is to see on the machine. -/
def look (f : Machine → α) : TracedRun α := do
  return f (← get).machine

def record (deed : Deed) : TracedRun Unit :=
  modify fun t => { t with deeds := t.deeds ++ [deed] }

def newCall : TracedRun Nat :=
  modifyGet fun t => (t.calls, { t with calls := t.calls + 1 })

def within (frame : FrameRef) (body : TracedRun α) : TracedRun α :=
  ExceptT.mk do
    let outer := (← get).machine.current
    modify fun t => { t with machine.current := frame }
    let result ← body.run
    modify fun t => { t with machine.current := outer }
    return result

def print (text : String) (line : Nat) : TracedRun Unit := do
  record (.prints line (text ++ "\n").toUTF8)
  lift (Run.print text line)

def sequence (execute : Stmt → TracedRun Completion) : List Stmt → TracedRun Completion
  | [] => return .normal
  | stated :: rest => do
    match ← execute stated with
    | .normal => sequence execute rest
    | .returned value => return .returned value

def evaluateEach (evaluate : Expr → TracedRun Value) : List Expr → TracedRun (List Value)
  | [] => return []
  | expr :: rest => do
    let value ← evaluate expr
    return value :: (← evaluateEach evaluate rest)

/-- The end of a call is recorded with its result. -/
def conclude (call : Nat) (closure : Closure) (completion : Completion) : TracedRun Value := do
  let result ←
    if closure.isInitializer then
      look fun m => (m.frames.lookup? closure.scope Scope.thisName).getD .nil
    else pure completion.value
  record (.ends call closure completion result)
  return result

def invoke (execute : Option Nat → Stmt → TracedRun Completion) (closure : Closure)
    (arguments : List Value) : TracedRun Value := do
  let bindings := (∅ : Bindings Value).insertAll
    ((closure.decl.params.map Name.text).zip arguments)
  let call ← newCall
  let frame ← lift (Run.newFrame closure.scope bindings)
  let completion ← within frame (sequence (execute (some call)) closure.decl.body)
  conclude call closure completion

def call (execute : Option Nat → Stmt → TracedRun Completion) (callable : Callable)
    (arguments : List Value) : TracedRun Value :=
  match callable with
  | .native .clock => .number <$> lift Run.readClock
  | .function closure => invoke execute closure arguments
  | .construct ref initializer => do
    let self ← lift (Run.newInstance ref)
    if let some method := initializer then
      let _ ← invoke execute (← lift (Run.bound method self)) arguments
    return .instanceAt self

def callValue (execute : Option Nat → Stmt → TracedRun Completion) (callee : Value)
    (arguments : List Value) (line : Nat) : TracedRun Value := do
  let callable ← lift (Run.require (← look (·.callable? callee)) .notCallable line)
  if arguments.length = callable.arity then call execute callable arguments
  else lift (Run.fail (.arityMismatch callable.arity arguments.length) line)

mutual

def evaluate : (fuel : Nat) → Expr → TracedRun Value
  | 0, _ => throw .outOfFuel
  | _ + 1, .literal value => return .ofLiteral value
  | fuel + 1, .grouping inner => evaluate fuel inner
  | fuel + 1, .unary op line operand => do
    lift (Run.ofResult line (op.apply (← evaluate fuel operand)))
  | fuel + 1, .binary op line left right => do
    let left ← evaluate fuel left
    let right ← evaluate fuel right
    lift (Run.ofResult line (op.apply left right))
  | fuel + 1, .logical op _ left right => do
    let left ← evaluate fuel left
    if op.isDecidedBy left then return left else evaluate fuel right
  | _ + 1, .read target => lift (Run.read target)
  | fuel + 1, .assign target value => do
    let value ← evaluate fuel value
    lift (Run.assign target value)
    return value
  | fuel + 1, .call callee arguments line => do
    let callee ← evaluate fuel callee
    let arguments ← evaluateEach (evaluate fuel) arguments
    callValue (execute fuel) callee arguments line
  | fuel + 1, .get object property => do
    lift (Run.getProperty (← evaluate fuel object) property)
  | fuel + 1, .set object property value => do
    let .instanceAt self := ← evaluate fuel object
      | lift (Run.fail .setOnNonInstance property.line)
    let value ← evaluate fuel value
    lift (Run.setField self property.text value)
    return value
  | _ + 1, .this keyword => lift (Run.read keyword)
  | _ + 1, .super keyword method => lift (Run.getSuper keyword method)

/-- Executes a statement in a call, or outside of all calls. -/
def execute : (fuel : Nat) → (call : Option Nat) → Stmt → TracedRun Completion
  | 0, _, _ => throw .outOfFuel
  | fuel + 1, _, .expression value => do
    let _ ← evaluate fuel value
    return .normal
  | fuel + 1, _, .print line value => do
    let value ← evaluate fuel value
    print (← look (·.textOf value)) line
    return .normal
  | fuel + 1, _, .varDecl name initial => do
    let value ← initial.elim (return .nil) (evaluate fuel)
    lift (Run.define (← lift Run.currentFrame) name.text value)
    return .normal
  | _ + 1, _, .functionDecl decl => do
    lift (Run.declareFunction decl)
    return .normal
  | _ + 1, _, .classDecl decl => do
    lift (Run.declareClass decl)
    return .normal
  | fuel + 1, call, .block body => do
    let frame ← lift (Run.newFrame (← lift Run.currentFrame) ∅)
    within frame (sequence (execute fuel call) body)
  | fuel + 1, call, .ifElse condition thenBranch elseBranch => do
    if (← evaluate fuel condition).isTruthy then execute fuel call thenBranch
    else elseBranch.elim (return .normal) (execute fuel call)
  | fuel + 1, call, .whileLoop condition body => do
    if (← evaluate fuel condition).isTruthy then
      match ← execute fuel call body with
      | .normal => execute fuel call (.whileLoop condition body)
      | .returned value => return .returned value
    else return .normal
  | fuel + 1, call, .ret keyword value => do
    let result ← value.elim (return .nil) (evaluate fuel)
    record (.returns call ⟨keyword, value⟩ result)
    return .returned result

end

def executeProgram (fuel : Nat) : Program → TracedRun Unit
  | [] => return ()
  | stated :: rest => do
    let completion ← execute fuel none stated
    record (.finishes stated completion)
    executeProgram fuel rest

end TracedRun

end Lox
