import Lox.Eval.Evaluate
import Lox.Proofs.Direct.State

/-! Running programs with their loops as they are written. The initializer of a loop has a scope, in
which the rest of the loop stands; a round of the loop is its condition, its body and its increment. -/

namespace Lox.Direct

namespace Run

def fail {α : Type} (cause : RuntimeError.Cause) (line : Nat) : Run α :=
  throw (.error ⟨cause, line⟩)

def require {α : Type} (result : Option α) (cause : RuntimeError.Cause) (line : Nat) : Run α :=
  match result with
  | some value => pure value
  | none => fail cause line

def ofResult {α : Type} (line : Nat) : Except RuntimeError.Cause α → Run α
  | .ok value => pure value
  | .error cause => fail cause line

def newFrame (bindings : Bindings Value) : Run FrameRef :=
  modifyGet fun s => (⟨s.frames.size⟩, { s with frames := s.frames.push bindings })

def newFunction (closure : Closure) : Run FunctionRef :=
  modifyGet fun s => (⟨s.functions.size⟩, { s with functions := s.functions.push closure })

def newClass (type : Class) : Run ClassRef :=
  modifyGet fun s => (⟨s.classes.size⟩, { s with classes := s.classes.push type })

def newInstance (ref : ClassRef) : Run InstanceRef :=
  modifyGet fun s => (⟨s.instances.size⟩, { s with instances := s.instances.push ⟨ref, ∅⟩ })

def define (frame : FrameRef) (name : String) (value : Value) : Run Unit :=
  modify fun s => { s with frames := s.frames.modify frame.index (·.insert name value) }

def setField (self : InstanceRef) (name : String) (value : Value) : Run Unit :=
  modify fun s =>
    { s with
      instances := s.instances.modify self.index fun found =>
        { found with fields := found.fields.insert name value } }

def readClock : Run Float :=
  modifyGet fun s =>
    (s.clock.reading s.clock.taken, { s with clock.taken := s.clock.taken + 1 })

def print (text : String) (line : Nat) : Run Unit := do
  let bytes := (text ++ "\n").toUTF8
  let fits := (← get).output.fits bytes
  modify fun s => { s with output := s.output.write bytes }
  if !fits then fail .outputFull line

def read (env : Env) (name : Name) : Run Value := do
  require ((← get).find? env name.text) (.undefinedVariable name.text) name.line

/-- A name is assigned where it is bound, and nowhere else. -/
def assign (env : Env) (name : Name) (value : Value) : Run Unit := do
  let _ ← read env name
  define (env.frameOf name.text) name.text value

def sequence (execute : Env → Stmt → Run Completion) : Env → List Stmt → Run Completion
  | _, [] => return .normal
  | env, stated :: rest => do
    match ← execute env stated with
    | .normal => sequence execute (env.after stated) rest
    | .returned value => return .returned value

def evaluateEach (evaluate : Expr → Run Value) : List Expr → Run (List Value)
  | [] => return []
  | expr :: rest => do
    let value ← evaluate expr
    return value :: (← evaluateEach evaluate rest)

def bound (method : Closure) (self : InstanceRef) : Run Closure := do
  let frame ← newFrame ((∅ : Bindings Value).insert Scope.thisName (.instanceAt self))
  return { method with env := ⟨[Scope.thisName], frame⟩ :: method.env }

def boundValue (method : Closure) (self : InstanceRef) : Run Value := do
  return .functionAt (← newFunction (← bound method self))

def invoke (execute : Env → Stmt → Run Completion) (closure : Closure) (arguments : List Value) :
    Run Value := do
  let params := closure.decl.params.map Name.text
  let frame ← newFrame ((∅ : Bindings Value).insertAll (params.zip arguments))
  let completion ← sequence execute (⟨params, frame⟩ :: closure.env) closure.decl.body
  if closure.isInitializer then
    return ((← get).find? closure.env Scope.thisName).getD .nil
  else return completion.value

def call (execute : Env → Stmt → Run Completion) (callable : Callable) (arguments : List Value) :
    Run Value :=
  match callable with
  | .native .clock => .number <$> readClock
  | .function closure => invoke execute closure arguments
  | .construct ref initializer => do
    let self ← newInstance ref
    if let some method := initializer then
      let _ ← invoke execute (← bound method self) arguments
    return .instanceAt self

def callValue (execute : Env → Stmt → Run Completion) (callee : Value) (arguments : List Value)
    (line : Nat) : Run Value := do
  let callable ← require ((← get).callable? callee) .notCallable line
  if arguments.length = callable.arity then call execute callable arguments
  else fail (.arityMismatch callable.arity arguments.length) line

def getProperty (object : Value) (property : Name) : Run Value := do
  let .instanceAt self := object | fail .getOnNonInstance property.line
  let member ← require ((← get).member? self property.text) (.undefinedProperty property.text)
    property.line
  match member with
  | .field value => return value
  | .method method => boundValue method self

def getSuper (env : Env) (keyword method : Name) : Run Value := do
  let s ← get
  let (superclass, self) ← require (s.super? env) (.undefinedVariable keyword.text) keyword.line
  let found ← require (s.method? superclass method.text) (.undefinedProperty method.text)
    method.line
  boundValue found self

def superclassOf (env : Env) (target : Name) : Run ClassRef := do
  let .classAt ref := ← read env target | fail .superclassNotClass target.line
  return ref

def declareFunction (env : Env) (decl : FunctionDecl) : Run Unit := do
  let ref ← newFunction ⟨decl, env.declare decl.name, false⟩
  define env.innermost decl.name.text (.functionAt ref)

def makeClass (decl : ClassDecl) (superclass : Option ClassRef) (env : Env) : Run ClassRef :=
  newClass
    { name := decl.name.text
      superclass
      methods := (∅ : Bindings Closure).insertAll
        (decl.methods.map fun method => (method.name.text, ⟨method, env, method.isInitializer⟩)) }

def declareClass (env : Env) (decl : ClassDecl) : Run Unit := do
  let around := env.declare decl.name
  let superclass ← decl.superclass.mapM fun target => superclassOf around target.name
  define env.innermost decl.name.text .nil
  let inside ← match superclass with
    | some ref => do
      let frame ← newFrame ((∅ : Bindings Value).insert Scope.superName (.classAt ref))
      pure (⟨[Scope.superName], frame⟩ :: around)
    | none => pure around
  let ref ← makeClass decl superclass inside
  define env.innermost decl.name.text (.classAt ref)

end Run

mutual

def evaluate : (fuel : Nat) → Env → Expr → Run Value
  | 0, _, _ => throw .outOfFuel
  | _ + 1, _, .literal value => return .ofLiteral value
  | fuel + 1, env, .grouping inner => evaluate fuel env inner
  | fuel + 1, env, .unary op line operand => do
    Run.ofResult line (op.apply (← evaluate fuel env operand))
  | fuel + 1, env, .binary op line left right => do
    let left ← evaluate fuel env left
    let right ← evaluate fuel env right
    Run.ofResult line (op.apply left right)
  | fuel + 1, env, .logical op _ left right => do
    let left ← evaluate fuel env left
    if op.isDecidedBy left then return left else evaluate fuel env right
  | _ + 1, env, .read target => Run.read env target.name
  | fuel + 1, env, .assign target value => do
    let value ← evaluate fuel env value
    Run.assign env target.name value
    return value
  | fuel + 1, env, .call callee arguments line => do
    let callee ← evaluate fuel env callee
    let arguments ← Run.evaluateEach (evaluate fuel env) arguments
    Run.callValue (execute fuel) callee arguments line
  | fuel + 1, env, .get object property => do
    Run.getProperty (← evaluate fuel env object) property
  | fuel + 1, env, .set object property value => do
    let .instanceAt self := ← evaluate fuel env object | Run.fail .setOnNonInstance property.line
    let value ← evaluate fuel env value
    Run.setField self property.text value
    return value
  | _ + 1, env, .this keyword => Run.read env keyword.name
  | _ + 1, env, .super keyword method => Run.getSuper env keyword.name method

def execute : (fuel : Nat) → Env → Stmt → Run Completion
  | 0, _, _ => throw .outOfFuel
  | fuel + 1, env, .expression value => do
    let _ ← evaluate fuel env value
    return .normal
  | fuel + 1, env, .print line value => do
    let value ← evaluate fuel env value
    Run.print ((← get).textOf value) line
    return .normal
  | fuel + 1, env, .varDecl name initial => do
    let value ← initial.elim (return .nil) (evaluate fuel (env.declare name))
    Run.define env.innermost name.text value
    return .normal
  | _ + 1, env, .functionDecl decl => do
    Run.declareFunction env decl
    return .normal
  | _ + 1, env, .classDecl decl => do
    Run.declareClass env decl
    return .normal
  | fuel + 1, env, .block body => do
    let frame ← Run.newFrame ∅
    Run.sequence (execute fuel) (⟨[], frame⟩ :: env) body
  | fuel + 1, env, .ifElse condition thenBranch elseBranch => do
    if (← evaluate fuel env condition).isTruthy then execute fuel env thenBranch
    else elseBranch.elim (return .normal) (execute fuel env)
  | fuel + 1, env, .whileLoop condition body => do
    if (← evaluate fuel env condition).isTruthy then
      match ← execute fuel env body with
      | .normal => execute fuel env (.whileLoop condition body)
      | .returned value => return .returned value
    else return .normal
  -- All rounds, and what they make, share the one frame of the initializer.
  | fuel + 1, env, .forLoop (some first) condition increment body => do
    let frame ← Run.newFrame ∅
    let inside : Env := ⟨[], frame⟩ :: env
    match ← execute fuel inside first with
    | .normal => execute fuel (inside.after first) (.forLoop none condition increment body)
    | .returned value => return .returned value
  | fuel + 1, env, .forLoop none condition increment body => do
    let holds ← evaluate fuel env (condition.getD (.literal (.boolean true)))
    if holds.isTruthy then
      match ← increment.elim (execute fuel env body) (executeRound fuel env body) with
      | .normal => execute fuel env (.forLoop none condition increment body)
      | .returned value => return .returned value
    else return .normal
  | fuel + 1, env, .ret _ value => do
    return .returned (← value.elim (return .nil) (evaluate fuel env))

/-- The body of a loop and then its increment, both at the place of the loop; no increment if the body
returns. -/
def executeRound : (fuel : Nat) → Env → Stmt → Expr → Run Completion
  | 0, _, _, _ => throw .outOfFuel
  | fuel + 1, env, body, step => do
    match ← execute fuel env body with
    | .normal => execute fuel env (.expression step)
    | .returned value => return .returned value

end

def Program.execute (fuel : Nat) : Program → Run Unit
  | [] => return ()
  | stated :: rest => do
    let _ ← Direct.execute fuel [] stated
    Program.execute fuel rest

end Lox.Direct
