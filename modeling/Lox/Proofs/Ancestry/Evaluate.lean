import Lox.Eval.Evaluate
import Lox.Proofs.Outcome

/-! Running with a record of the way: beside the machine it is kept which machines were passed, step by step,
and from which declarations the classes were made. The run itself is the same. -/

namespace Lox

/-- A machine, those that were passed before it, the latest first, and the declarations from which the classes
were made, in the order in which they were made. -/
structure Passage where
  machine : Machine
  passed : List Machine
  decls : Array ClassDecl

namespace Passage

/-- The machine is passed or is the one that the passage has come to. -/
def Reached (t : Passage) (m : Machine) : Prop :=
  m = t.machine ∨ m ∈ t.passed

def goTo (t : Passage) (m : Machine) : Passage :=
  { t with machine := m, passed := t.machine :: t.passed }

end Passage

/-- A run with a record of the way. -/
abbrev PassingRun := ExceptT Halt (StateM Passage)

namespace PassingRun

variable {α : Type}

def lift (x : Run α) : PassingRun α :=
  ExceptT.mk (StateT.mk fun t =>
    pure ((outcome x t.machine).1, t.goTo (outcome x t.machine).2))

def within (frame : FrameRef) (body : PassingRun α) : PassingRun α :=
  ExceptT.mk do
    let outer := (← get).machine.current
    modify fun t => t.goTo { t.machine with current := frame }
    let result ← body.run
    modify fun t => t.goTo { t.machine with current := outer }
    return result

def sequence (execute : Stmt → PassingRun Completion) : List Stmt → PassingRun Completion
  | [] => return .normal
  | stated :: rest => do
    match ← execute stated with
    | .normal => sequence execute rest
    | .returned value => return .returned value

def evaluateEach (evaluate : Expr → PassingRun Value) : List Expr → PassingRun (List Value)
  | [] => return []
  | expr :: rest => do
    let value ← evaluate expr
    return value :: (← evaluateEach evaluate rest)

def bound (method : Closure) (self : InstanceRef) : PassingRun Closure := do
  let scope ← lift (Run.newFrame method.scope
    ((∅ : Bindings Value).insert Scope.thisName (.instanceAt self)))
  return { method with scope }

def boundValue (method : Closure) (self : InstanceRef) : PassingRun Value := do
  return .functionAt (← lift (Run.newFunction (← bound method self)))

def invoke (execute : Stmt → PassingRun Completion) (closure : Closure) (arguments : List Value) :
    PassingRun Value := do
  let bindings := (∅ : Bindings Value).insertAll
    ((closure.decl.params.map Name.text).zip arguments)
  let frame ← lift (Run.newFrame closure.scope bindings)
  let completion ← within frame (sequence execute closure.decl.body)
  if closure.isInitializer then
    return ((← get).machine.frames.lookup? closure.scope Scope.thisName).getD .nil
  else return completion.value

def call (execute : Stmt → PassingRun Completion) (callable : Callable) (arguments : List Value) :
    PassingRun Value :=
  match callable with
  | .native .clock => .number <$> lift Run.readClock
  | .function closure => invoke execute closure arguments
  | .construct ref initializer => do
    let self ← lift (Run.newInstance ref)
    if let some method := initializer then
      let _ ← invoke execute (← bound method self) arguments
    return .instanceAt self

def callValue (execute : Stmt → PassingRun Completion) (callee : Value) (arguments : List Value)
    (line : Nat) : PassingRun Value := do
  let callable ← lift (Run.require ((← get).machine.callable? callee) .notCallable line)
  if arguments.length = callable.arity then call execute callable arguments
  else lift (Run.fail (.arityMismatch callable.arity arguments.length) line)

def getProperty (object : Value) (property : Name) : PassingRun Value := do
  let .instanceAt self := object | lift (Run.fail .getOnNonInstance property.line)
  let member ← lift (Run.require ((← get).machine.member? self property.text)
    (.undefinedProperty property.text) property.line)
  match member with
  | .field value => return value
  | .method method => boundValue method self

def getSuper (keyword : Reference) (method : Name) : PassingRun Value := do
  let t ← get
  let (superclass, self) ← lift (Run.require (t.machine.super? keyword)
    (.undefinedVariable keyword.name.text) keyword.name.line)
  let found ← lift (Run.require (t.machine.method? superclass method.text)
    (.undefinedProperty method.text) method.line)
  boundValue found self

def declareFunction (decl : FunctionDecl) : PassingRun Unit := do
  let frame ← lift Run.currentFrame
  let ref ← lift (Run.newFunction ⟨decl, frame, false⟩)
  lift (Run.define frame decl.name.text (.functionAt ref))

/-- Makes a class from a declaration, which is kept. -/
def makeClass (decl : ClassDecl) (superclass : Option ClassRef) (scope : FrameRef) :
    PassingRun ClassRef := do
  modify fun t => { t with decls := t.decls.push decl }
  lift (Run.makeClass decl superclass scope)

def declareClass (decl : ClassDecl) : PassingRun Unit := do
  let superclass ← decl.superclass.mapM fun target => lift (Run.superclassOf target)
  let frame ← lift Run.currentFrame
  lift (Run.define frame decl.name.text .nil)
  let scope ← match superclass with
    | some ref =>
      lift (Run.newFrame frame ((∅ : Bindings Value).insert Scope.superName (.classAt ref)))
    | none => pure frame
  let ref ← makeClass decl superclass scope
  lift (Run.define frame decl.name.text (.classAt ref))

mutual

def evaluate : (fuel : Nat) → Expr → PassingRun Value
  | 0, _ => throw .outOfFuel
  | _ + 1, .literal value => return .ofLiteral value
  | fuel + 1, .grouping inner => evaluate fuel inner
  | fuel + 1, .unary op line operand => do
    lift (Run.ofResult line (op.apply (← evaluate fuel operand)))
  | fuel + 1, .binary op line left right => do
    let left ← evaluate fuel left
    let right ← evaluate fuel right
    lift (Run.ofResult line (op.apply left right))
  | fuel + 1, .logical op _ left right => do
    let left ← evaluate fuel left
    if op.isDecidedBy left then return left else evaluate fuel right
  | _ + 1, .read target => lift (Run.read target)
  | fuel + 1, .assign target value => do
    let value ← evaluate fuel value
    lift (Run.assign target value)
    return value
  | fuel + 1, .call callee arguments line => do
    let callee ← evaluate fuel callee
    let arguments ← evaluateEach (evaluate fuel) arguments
    callValue (execute fuel) callee arguments line
  | fuel + 1, .get object property => do
    getProperty (← evaluate fuel object) property
  | fuel + 1, .set object property value => do
    let .instanceAt self := ← evaluate fuel object
      | lift (Run.fail .setOnNonInstance property.line)
    let value ← evaluate fuel value
    lift (Run.setField self property.text value)
    return value
  | _ + 1, .this keyword => lift (Run.read keyword)
  | _ + 1, .super keyword method => getSuper keyword method

def execute : (fuel : Nat) → Stmt → PassingRun Completion
  | 0, _ => throw .outOfFuel
  | fuel + 1, .expression value => do
    let _ ← evaluate fuel value
    return .normal
  | fuel + 1, .print line value => do
    let value ← evaluate fuel value
    lift (Run.print ((← get).machine.textOf value) line)
    return .normal
  | fuel + 1, .varDecl name initial => do
    let value ← initial.elim (return .nil) (evaluate fuel)
    lift (Run.define (← lift Run.currentFrame) name.text value)
    return .normal
  | _ + 1, .functionDecl decl => do
    declareFunction decl
    return .normal
  | _ + 1, .classDecl decl => do
    declareClass decl
    return .normal
  | fuel + 1, .block body => do
    let frame ← lift (Run.newFrame (← lift Run.currentFrame) ∅)
    within frame (sequence (execute fuel) body)
  | fuel + 1, .ifElse condition thenBranch elseBranch => do
    if (← evaluate fuel condition).isTruthy then execute fuel thenBranch
    else elseBranch.elim (return .normal) (execute fuel)
  | fuel + 1, .whileLoop condition body => do
    if (← evaluate fuel condition).isTruthy then
      match ← execute fuel body with
      | .normal => execute fuel (.whileLoop condition body)
      | .returned value => return .returned value
    else return .normal
  | fuel + 1, .ret _ value => do
    return .returned (← value.elim (return .nil) (evaluate fuel))

end

def executeProgram (fuel : Nat) : Program → PassingRun Unit
  | [] => return ()
  | stated :: rest => do
    let _ ← execute fuel stated
    executeProgram fuel rest

end PassingRun

end Lox
