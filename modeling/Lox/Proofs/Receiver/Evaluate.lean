import Lox.Proofs.Watch.Evaluate

/-! Running with receivers on record: beside the machine it is kept for whom each function runs, and
what each class was made from. The run itself is the same. -/

namespace Lox

/-- A declaration of a class that was executed, and the class that the name of its superclass came to,
if it has one. -/
structure Made where
  decl : ClassDecl
  superclass : Option ClassRef

/-- An instance to which a method is bound, and of which class the method is. -/
structure Receiver where
  self : InstanceRef
  made : Made

/-- An expression that is being evaluated, for whom the code with it runs, and the machine as it is. -/
structure Occasion where
  node : Expr
  receiver : Option Receiver
  machine : Machine

/-- For whom each function runs, what each class was made from, and each evaluation of an expression
that was begun, the latest first. -/
structure Record where
  machine : Machine
  receivers : Array (Option Receiver)
  made : Array Made
  occasions : List Occasion

namespace Record

/-- For whom a value runs if it is a function that is called. -/
def receiver? (t : Record) : Value → Option Receiver
  | .functionAt ref => t.receivers[ref.index]?.getD none
  | _ => none

/-- For whom a method runs that is found from a class upward and bound to an instance. -/
def methodReceiver? (t : Record) (ref : ClassRef) (name : String) (self : InstanceRef) :
    Option Receiver :=
  ((t.machine.ownerAmong? name (ref.index + 1) ref).bind fun owner => t.made[owner.index]?).map
    (⟨self, ·⟩)

def memberReceiver? (t : Record) (self : InstanceRef) (name : String) : Option Receiver :=
  (t.machine.instance? self).bind fun found => t.methodReceiver? found.classRef name self

end Record

/-- A run on record. -/
abbrev RecordedRun := ExceptT Halt (StateM Record)

namespace RecordedRun

variable {α : Type}

def lift (x : Run α) : RecordedRun α :=
  ExceptT.mk (StateT.mk fun t =>
    pure ((outcome x t.machine).1, { t with machine := (outcome x t.machine).2 }))

def note (receiver : Option Receiver) (node : Expr) : RecordedRun Unit :=
  modify fun t => { t with occasions := ⟨node, receiver, t.machine⟩ :: t.occasions }

def newFunction (receiver : Option Receiver) (closure : Closure) : RecordedRun FunctionRef := do
  modify fun t => { t with receivers := t.receivers.push receiver }
  lift (Run.newFunction closure)

def within (frame : FrameRef) (body : RecordedRun α) : RecordedRun α :=
  ExceptT.mk do
    let outer := (← get).machine.current
    modify fun t => { t with machine.current := frame }
    let result ← body.run
    modify fun t => { t with machine.current := outer }
    return result

def sequence (execute : Stmt → RecordedRun Completion) : List Stmt → RecordedRun Completion
  | [] => return .normal
  | stated :: rest => do
    match ← execute stated with
    | .normal => sequence execute rest
    | .returned value => return .returned value

def evaluateEach (evaluate : Expr → RecordedRun Value) : List Expr → RecordedRun (List Value)
  | [] => return []
  | expr :: rest => do
    let value ← evaluate expr
    return value :: (← evaluateEach evaluate rest)

def boundValue (receiver : Option Receiver) (method : Closure) (self : InstanceRef) :
    RecordedRun Value := do
  let closure ← lift (Run.bound method self)
  return .functionAt (← newFunction receiver closure)

def invoke (execute : Stmt → RecordedRun Completion) (closure : Closure) (arguments : List Value) :
    RecordedRun Value := do
  let bindings := (∅ : Bindings Value).insertAll
    ((closure.decl.params.map Name.text).zip arguments)
  let frame ← lift (Run.newFrame closure.scope bindings)
  let completion ← within frame (sequence execute closure.decl.body)
  if closure.isInitializer then
    return ((← get).machine.frames.lookup? closure.scope Scope.thisName).getD .nil
  else return completion.value

def call (execute : Option Receiver → Stmt → RecordedRun Completion) (callable : Callable)
    (receiver : Option Receiver) (arguments : List Value) : RecordedRun Value :=
  match callable with
  | .native .clock => .number <$> lift Run.readClock
  | .function closure => invoke (execute receiver) closure arguments
  | .construct ref initializer => do
    let self ← lift (Run.newInstance ref)
    if let some method := initializer then
      let receiver := (← get).methodReceiver? ref initializerName self
      let closure ← lift (Run.bound method self)
      let _ ← invoke (execute receiver) closure arguments
    return .instanceAt self

def callValue (execute : Option Receiver → Stmt → RecordedRun Completion) (callee : Value)
    (arguments : List Value) (line : Nat) : RecordedRun Value := do
  let t ← get
  let callable ← lift (Run.require (t.machine.callable? callee) .notCallable line)
  if arguments.length = callable.arity then call execute callable (t.receiver? callee) arguments
  else lift (Run.fail (.arityMismatch callable.arity arguments.length) line)

def getProperty (object : Value) (property : Name) : RecordedRun Value := do
  let .instanceAt self := object | lift (Run.fail .getOnNonInstance property.line)
  let t ← get
  let member ← lift (Run.require (t.machine.member? self property.text)
    (.undefinedProperty property.text) property.line)
  match member with
  | .field value => return value
  | .method method => boundValue (t.memberReceiver? self property.text) method self

def getSuper (keyword : Reference) (method : Name) : RecordedRun Value := do
  let t ← get
  let (superclass, self) ← lift (Run.require (t.machine.super? keyword)
    (.undefinedVariable keyword.name.text) keyword.name.line)
  let found ← lift (Run.require (t.machine.method? superclass method.text)
    (.undefinedProperty method.text) method.line)
  boundValue (t.methodReceiver? superclass method.text self) found self

def declareFunction (receiver : Option Receiver) (decl : FunctionDecl) : RecordedRun Unit := do
  let frame ← lift Run.currentFrame
  let ref ← newFunction receiver ⟨decl, frame, false⟩
  lift (Run.define frame decl.name.text (.functionAt ref))

def makeClass (decl : ClassDecl) (superclass : Option ClassRef) (scope : FrameRef) :
    RecordedRun ClassRef := do
  modify fun t => { t with made := t.made.push ⟨decl, superclass⟩ }
  lift (Run.makeClass decl superclass scope)

def declareClass (decl : ClassDecl) : RecordedRun Unit := do
  let superclass ← decl.superclass.mapM fun target => lift (Run.superclassOf target)
  let frame ← lift Run.currentFrame
  lift (Run.define frame decl.name.text .nil)
  let scope ← match superclass with
    | some ref =>
      lift (Run.newFrame frame ((∅ : Bindings Value).insert Scope.superName (.classAt ref)))
    | none => pure frame
  let ref ← makeClass decl superclass scope
  lift (Run.define frame decl.name.text (.classAt ref))

mutual

def evaluate : (fuel : Nat) → Option Receiver → Expr → RecordedRun Value
  | 0, _, _ => throw .outOfFuel
  | fuel + 1, receiver, node => do
    note receiver node
    match node with
    | .literal value => return .ofLiteral value
    | .grouping inner => evaluate fuel receiver inner
    | .unary op line operand => do
      lift (Run.ofResult line (op.apply (← evaluate fuel receiver operand)))
    | .binary op line left right => do
      let left ← evaluate fuel receiver left
      let right ← evaluate fuel receiver right
      lift (Run.ofResult line (op.apply left right))
    | .logical op _ left right => do
      let left ← evaluate fuel receiver left
      if op.isDecidedBy left then return left else evaluate fuel receiver right
    | .read target => lift (Run.read target)
    | .assign target value => do
      let value ← evaluate fuel receiver value
      lift (Run.assign target value)
      return value
    | .call callee arguments line => do
      let callee ← evaluate fuel receiver callee
      let arguments ← evaluateEach (evaluate fuel receiver) arguments
      callValue (execute fuel) callee arguments line
    | .get object property => do
      getProperty (← evaluate fuel receiver object) property
    | .set object property value => do
      let .instanceAt self := ← evaluate fuel receiver object
        | lift (Run.fail .setOnNonInstance property.line)
      let value ← evaluate fuel receiver value
      lift (Run.setField self property.text value)
      return value
    | .this keyword => lift (Run.read keyword)
    | .super keyword method => getSuper keyword method

def execute : (fuel : Nat) → Option Receiver → Stmt → RecordedRun Completion
  | 0, _, _ => throw .outOfFuel
  | fuel + 1, receiver, .expression value => do
    let _ ← evaluate fuel receiver value
    return .normal
  | fuel + 1, receiver, .print line value => do
    let value ← evaluate fuel receiver value
    lift (Run.print ((← get).machine.textOf value) line)
    return .normal
  | fuel + 1, receiver, .varDecl name initial => do
    let value ← initial.elim (return .nil) (evaluate fuel receiver)
    lift (Run.define (← lift Run.currentFrame) name.text value)
    return .normal
  | _ + 1, receiver, .functionDecl decl => do
    declareFunction receiver decl
    return .normal
  | _ + 1, _, .classDecl decl => do
    declareClass decl
    return .normal
  | fuel + 1, receiver, .block body => do
    let frame ← lift (Run.newFrame (← lift Run.currentFrame) ∅)
    within frame (sequence (execute fuel receiver) body)
  | fuel + 1, receiver, .ifElse condition thenBranch elseBranch => do
    if (← evaluate fuel receiver condition).isTruthy then execute fuel receiver thenBranch
    else elseBranch.elim (return .normal) (execute fuel receiver)
  | fuel + 1, receiver, .whileLoop condition body => do
    if (← evaluate fuel receiver condition).isTruthy then
      match ← execute fuel receiver body with
      | .normal => execute fuel receiver (.whileLoop condition body)
      | .returned value => return .returned value
    else return .normal
  | fuel + 1, receiver, .ret _ value => do
    return .returned (← value.elim (return .nil) (evaluate fuel receiver))

end

def executeProgram (fuel : Nat) : Program → RecordedRun Unit
  | [] => return ()
  | stated :: rest => do
    let _ ← execute fuel none stated
    executeProgram fuel rest

end RecordedRun

end Lox
