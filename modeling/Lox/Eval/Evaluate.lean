import Lox.Eval.Operators
import Lox.Eval.Run

/-!
Evaluation of expressions and execution of statements.

Every step down into a tree, a call or another round of a loop takes one unit of fuel, so that
evaluation is total; it runs out of fuel only where it would nest deeper than the fuel allows.
-/

namespace Lox

/-- How a statement ends. One that returns ends all the statements around it, up to the function. -/
inductive Completion
  | normal
  | returned (value : Value)
deriving DecidableEq, Repr

def Completion.value : Completion → Value
  | normal => .nil
  | returned value => value

namespace Run

def sequence (execute : Stmt → Run Completion) : List Stmt → Run Completion
  | [] => return .normal
  | statement :: rest => do
    match ← execute statement with
    | .normal => sequence execute rest
    | .returned value => return .returned value

def evaluateEach (evaluate : Expr → Run Value) : List Expr → Run (List Value)
  | [] => return []
  | expr :: rest => do
    let value ← evaluate expr
    return value :: (← evaluateEach evaluate rest)

/-- A method that knows its instance: its frame is one that binds `this`. -/
def bound (method : Closure) (self : InstanceRef) : Run Closure := do
  let scope ← newFrame method.scope ((∅ : Bindings Value).insert Scope.thisName (.instanceAt self))
  return { method with scope }

def boundValue (method : Closure) (self : InstanceRef) : Run Value := do
  return .functionAt (← newFunction (← bound method self))

/-- Calls a function. An initializer yields its instance, however its body ends. -/
def invoke (execute : Stmt → Run Completion) (closure : Closure) (arguments : List Value) :
    Run Value := do
  let bindings := (∅ : Bindings Value).insertAll
    ((closure.decl.params.map Name.text).zip arguments)
  let frame ← newFrame closure.scope bindings
  let completion ← within frame (sequence execute closure.decl.body)
  if closure.isInitializer then
    return ((← get).frames.lookup? closure.scope Scope.thisName).getD .nil
  else return completion.value

/-- Calls what can be called, with as many arguments as it takes. -/
def call (execute : Stmt → Run Completion) (callable : Callable) (arguments : List Value) :
    Run Value :=
  match callable with
  | .native .clock => .number <$> readClock
  | .function closure => invoke execute closure arguments
  | .construct ref initializer => do
    let self ← newInstance ref
    if let some method := initializer then
      let _ ← invoke execute (← bound method self) arguments
    return .instanceAt self

def callValue (execute : Stmt → Run Completion) (callee : Value) (arguments : List Value)
    (line : Nat) : Run Value := do
  let callable ← require ((← get).callable? callee) .notCallable line
  if arguments.length = callable.arity then call execute callable arguments
  else fail (.arityMismatch callable.arity arguments.length) line

def getProperty (object : Value) (property : Name) : Run Value := do
  let .instanceAt self := object | fail .getOnNonInstance property.line
  let member ← require ((← get).member? self property.text) (.undefinedProperty property.text)
    property.line
  match member with
  | .field value => return value
  | .method method => boundValue method self

def getSuper (keyword : Reference) (method : Name) : Run Value := do
  let m ← get
  let (superclass, self) ←
    require (m.super? keyword) (.undefinedVariable keyword.name.text) keyword.name.line
  let found ← require (m.method? superclass method.text) (.undefinedProperty method.text)
    method.line
  boundValue found self

def superclassOf (target : Reference) : Run ClassRef := do
  let .classAt ref := ← read target | fail .superclassNotClass target.name.line
  return ref

def declareFunction (decl : FunctionDecl) : Run Unit := do
  let frame ← currentFrame
  let ref ← newFunction ⟨decl, frame, false⟩
  define frame decl.name.text (.functionAt ref)

def makeClass (decl : ClassDecl) (superclass : Option ClassRef) (scope : FrameRef) :
    Run ClassRef :=
  newClass
    { name := decl.name.text
      superclass
      methods := (∅ : Bindings Closure).insertAll
        (decl.methods.map fun method => (method.name.text, ⟨method, scope, method.isInitializer⟩)) }

/-- Declares a class in the current frame. Its name is bound to nothing yet when it is made. The
methods of a class with a superclass see a frame that binds `super`, which is the current one while
the class is made. -/
def declareClass (decl : ClassDecl) : Run Unit := do
  let superclass ← decl.superclass.mapM superclassOf
  let frame ← currentFrame
  define frame decl.name.text .nil
  if let some ref := superclass then
    enter (← newFrame frame ((∅ : Bindings Value).insert Scope.superName (.classAt ref)))
  let ref ← makeClass decl superclass (← currentFrame)
  enter frame
  define frame decl.name.text (.classAt ref)

/-- Which frame is the current one while a class is made does not show afterwards. -/
theorem declareClass_eq (decl : ClassDecl) :
    declareClass decl = (do
      let superclass ← decl.superclass.mapM superclassOf
      let frame ← currentFrame
      define frame decl.name.text .nil
      let scope ← match superclass with
        | some ref => newFrame frame ((∅ : Bindings Value).insert Scope.superName (.classAt ref))
        | none => pure frame
      let ref ← makeClass decl superclass scope
      define frame decl.name.text (.classAt ref)) := by
  unfold declareClass
  congr 1
  funext superclass
  cases superclass <;> rfl

end Run

mutual

def evaluate : (fuel : Nat) → Expr → Run Value
  | 0, _ => throw .outOfFuel
  | _ + 1, .literal value => return .ofLiteral value
  | fuel + 1, .grouping inner => evaluate fuel inner
  | fuel + 1, .unary op line operand => do
    Run.ofResult line (op.apply (← evaluate fuel operand))
  | fuel + 1, .binary op line left right => do
    let left ← evaluate fuel left
    let right ← evaluate fuel right
    Run.ofResult line (op.apply left right)
  | fuel + 1, .logical op _ left right => do
    let left ← evaluate fuel left
    if op.isDecidedBy left then return left else evaluate fuel right
  | _ + 1, .read target => Run.read target
  | fuel + 1, .assign target value => do
    let value ← evaluate fuel value
    Run.assign target value
    return value
  | fuel + 1, .call callee arguments line => do
    let callee ← evaluate fuel callee
    let arguments ← Run.evaluateEach (evaluate fuel) arguments
    Run.callValue (execute fuel) callee arguments line
  | fuel + 1, .get object property => do
    Run.getProperty (← evaluate fuel object) property
  | fuel + 1, .set object property value => do
    let .instanceAt self := ← evaluate fuel object | Run.fail .setOnNonInstance property.line
    let value ← evaluate fuel value
    Run.setField self property.text value
    return value
  | _ + 1, .this keyword => Run.read keyword
  | _ + 1, .super keyword method => Run.getSuper keyword method

def execute : (fuel : Nat) → Stmt → Run Completion
  | 0, _ => throw .outOfFuel
  | fuel + 1, .expression value => do
    let _ ← evaluate fuel value
    return .normal
  | fuel + 1, .print line value => do
    let value ← evaluate fuel value
    Run.print ((← get).textOf value) line
    return .normal
  | fuel + 1, .varDecl name initial => do
    let value ← initial.elim (return .nil) (evaluate fuel)
    Run.define (← Run.currentFrame) name.text value
    return .normal
  | _ + 1, .functionDecl decl => do
    Run.declareFunction decl
    return .normal
  | _ + 1, .classDecl decl => do
    Run.declareClass decl
    return .normal
  | fuel + 1, .block body => do
    let frame ← Run.newFrame (← Run.currentFrame) ∅
    Run.within frame (Run.sequence (execute fuel) body)
  | fuel + 1, .ifElse condition thenBranch elseBranch => do
    if (← evaluate fuel condition).isTruthy then execute fuel thenBranch
    else elseBranch.elim (return .normal) (execute fuel)
  | fuel + 1, .whileLoop condition body => do
    if (← evaluate fuel condition).isTruthy then
      match ← execute fuel body with
      | .normal => execute fuel (.whileLoop condition body)
      | .returned value => return .returned value
    else return .normal
  | fuel + 1, .ret _ value => do
    return .returned (← value.elim (return .nil) (evaluate fuel))

end

/-- Runs a program: its statements one after another. A top-level statement that returns ends, and
the next one is executed. -/
def Program.execute (fuel : Nat) : Program → Run Unit
  | [] => return ()
  | statement :: rest => do
    let _ ← Lox.execute fuel statement
    Program.execute fuel rest

end Lox
