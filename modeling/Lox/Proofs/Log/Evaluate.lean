import Lox.Eval.Evaluate
import Lox.Proofs.Outcome

/-! Running with a log: beside the machine it is kept on which machines something was run, which frames were
made for an instance or a superclass, and how calls of functions ended. The run itself is the same. -/

namespace Lox

/-- What is logged of a run. -/
inductive Entry
  /-- An expression or a statement is about to be run on the machine. -/
  | begins (m : Machine)
  /-- A frame is made for one name: for `this`, when a method is bound to an instance, or for `super`, when
  a class with a superclass is declared. -/
  | makes (frame : FrameRef) (name : String) (value : Value)
  /-- The body of a function is done: what is found for its instance, if it is an initializer, and what the
  call yields. -/
  | ends (closure : Closure) (self? : Option Value) (result : Value)

/-- A machine, and what has been logged, the latest last. -/
structure Log where
  machine : Machine
  entries : List Entry

/-- A run with a log. -/
abbrev LoggedRun := ExceptT Halt (StateM Log)

namespace LoggedRun

variable {α : Type}

def lift (x : Run α) : LoggedRun α :=
  ExceptT.mk (StateT.mk fun t =>
    pure ((outcome x t.machine).1, { t with machine := (outcome x t.machine).2 }))

def record (entry : Entry) : LoggedRun Unit :=
  modify fun t => { t with entries := t.entries ++ [entry] }

def note : LoggedRun Unit :=
  modify fun t => { t with entries := t.entries ++ [.begins t.machine] }

def within (frame : FrameRef) (body : LoggedRun α) : LoggedRun α :=
  ExceptT.mk do
    let outer := (← get).machine.current
    modify fun t => { t with machine.current := frame }
    let result ← body.run
    modify fun t => { t with machine.current := outer }
    return result

def sequence (execute : Stmt → LoggedRun Completion) : List Stmt → LoggedRun Completion
  | [] => return .normal
  | stated :: rest => do
    match ← execute stated with
    | .normal => sequence execute rest
    | .returned value => return .returned value

def evaluateEach (evaluate : Expr → LoggedRun Value) : List Expr → LoggedRun (List Value)
  | [] => return []
  | expr :: rest => do
    let value ← evaluate expr
    return value :: (← evaluateEach evaluate rest)

/-- A frame that binds one name. -/
def newFrameFor (enclosing : FrameRef) (name : String) (value : Value) : LoggedRun FrameRef := do
  let frame ← lift (Run.newFrame enclosing ((∅ : Bindings Value).insert name value))
  record (.makes frame name value)
  return frame

def bound (method : Closure) (self : InstanceRef) : LoggedRun Closure := do
  let scope ← newFrameFor method.scope Scope.thisName (.instanceAt self)
  return { method with scope }

def boundValue (method : Closure) (self : InstanceRef) : LoggedRun Value := do
  return .functionAt (← lift (Run.newFunction (← bound method self)))

def invoke (execute : Stmt → LoggedRun Completion) (closure : Closure) (arguments : List Value) :
    LoggedRun Value := do
  let bindings := (∅ : Bindings Value).insertAll
    ((closure.decl.params.map Name.text).zip arguments)
  let frame ← lift (Run.newFrame closure.scope bindings)
  let completion ← within frame (sequence execute closure.decl.body)
  if closure.isInitializer then
    let self? := (← get).machine.frames.lookup? closure.scope Scope.thisName
    record (.ends closure self? (self?.getD .nil))
    return self?.getD .nil
  else
    record (.ends closure none completion.value)
    return completion.value

def call (execute : Stmt → LoggedRun Completion) (callable : Callable) (arguments : List Value) :
    LoggedRun Value :=
  match callable with
  | .native .clock => .number <$> lift Run.readClock
  | .function closure => invoke execute closure arguments
  | .construct ref initializer => do
    let self ← lift (Run.newInstance ref)
    if let some method := initializer then
      let _ ← invoke execute (← bound method self) arguments
    return .instanceAt self

def callValue (execute : Stmt → LoggedRun Completion) (callee : Value) (arguments : List Value)
    (line : Nat) : LoggedRun Value := do
  let callable ← lift (Run.require ((← get).machine.callable? callee) .notCallable line)
  if arguments.length = callable.arity then call execute callable arguments
  else lift (Run.fail (.arityMismatch callable.arity arguments.length) line)

def getProperty (object : Value) (property : Name) : LoggedRun Value := do
  let .instanceAt self := object | lift (Run.fail .getOnNonInstance property.line)
  let member ← lift (Run.require ((← get).machine.member? self property.text)
    (.undefinedProperty property.text) property.line)
  match member with
  | .field value => return value
  | .method method => boundValue method self

def getSuper (keyword : Reference) (method : Name) : LoggedRun Value := do
  let t ← get
  let (superclass, self) ← lift (Run.require (t.machine.super? keyword)
    (.undefinedVariable keyword.name.text) keyword.name.line)
  let found ← lift (Run.require (t.machine.method? superclass method.text)
    (.undefinedProperty method.text) method.line)
  boundValue found self

def declareClass (decl : ClassDecl) : LoggedRun Unit := do
  let superclass ← lift (decl.superclass.mapM Run.superclassOf)
  let frame ← lift Run.currentFrame
  lift (Run.define frame decl.name.text .nil)
  let scope ← match superclass with
    | some ref => newFrameFor frame Scope.superName (.classAt ref)
    | none => pure frame
  let ref ← lift (Run.makeClass decl superclass scope)
  lift (Run.define frame decl.name.text (.classAt ref))

mutual

def evaluate : (fuel : Nat) → Expr → LoggedRun Value
  | 0, _ => throw .outOfFuel
  | fuel + 1, node => do
    note
    match node with
    | .literal value => return .ofLiteral value
    | .grouping inner => evaluate fuel inner
    | .unary op line operand => do
      lift (Run.ofResult line (op.apply (← evaluate fuel operand)))
    | .binary op line left right => do
      let left ← evaluate fuel left
      let right ← evaluate fuel right
      lift (Run.ofResult line (op.apply left right))
    | .logical op _ left right => do
      let left ← evaluate fuel left
      if op.isDecidedBy left then return left else evaluate fuel right
    | .read target => lift (Run.read target)
    | .assign target value => do
      let value ← evaluate fuel value
      lift (Run.assign target value)
      return value
    | .call callee arguments line => do
      let callee ← evaluate fuel callee
      let arguments ← evaluateEach (evaluate fuel) arguments
      callValue (execute fuel) callee arguments line
    | .get object property => do
      getProperty (← evaluate fuel object) property
    | .set object property value => do
      let .instanceAt self := ← evaluate fuel object
        | lift (Run.fail .setOnNonInstance property.line)
      let value ← evaluate fuel value
      lift (Run.setField self property.text value)
      return value
    | .this keyword => lift (Run.read keyword)
    | .super keyword method => getSuper keyword method

def execute : (fuel : Nat) → Stmt → LoggedRun Completion
  | 0, _ => throw .outOfFuel
  | fuel + 1, stated => do
    note
    match stated with
    | .expression value => do
      let _ ← evaluate fuel value
      return .normal
    | .print line value => do
      let value ← evaluate fuel value
      lift (Run.print ((← get).machine.textOf value) line)
      return .normal
    | .varDecl name initial => do
      let value ← initial.elim (return .nil) (evaluate fuel)
      lift (Run.define (← lift Run.currentFrame) name.text value)
      return .normal
    | .functionDecl decl => do
      lift (Run.declareFunction decl)
      return .normal
    | .classDecl decl => do
      declareClass decl
      return .normal
    | .block body => do
      let frame ← lift (Run.newFrame (← lift Run.currentFrame) ∅)
      within frame (sequence (execute fuel) body)
    | .ifElse condition thenBranch elseBranch => do
      if (← evaluate fuel condition).isTruthy then execute fuel thenBranch
      else elseBranch.elim (return .normal) (execute fuel)
    | .whileLoop condition body => do
      if (← evaluate fuel condition).isTruthy then
        match ← execute fuel body with
        | .normal => execute fuel (.whileLoop condition body)
        | .returned value => return .returned value
      else return .normal
    | .ret _ value => do
      return .returned (← value.elim (return .nil) (evaluate fuel))

end

def executeProgram (fuel : Nat) : Program → LoggedRun Unit
  | [] => return ()
  | stated :: rest => do
    let _ ← execute fuel stated
    executeProgram fuel rest

end LoggedRun

end Lox
