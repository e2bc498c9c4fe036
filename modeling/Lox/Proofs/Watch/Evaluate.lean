import Lox.Session
import Lox.Proofs.Outcome

/-! Running under watch: beside the machine a journal is kept, of what resolution saw at each place
and of the frames that were made for its scopes. The run itself is the same. -/

namespace Lox

/-- A place in a running program: what stands around it, the scopes in which its names are resolved,
and the frames that were made for these scopes. -/
structure Site where
  context : Context
  scopes : List Scope
  frames : List FrameRef

namespace Site

def top : Site :=
  ⟨⟨.none, .none⟩, [], []⟩

def after (site : Site) (stated : Stmt) : Site :=
  { site with scopes := (stated.resolve site.context site.scopes).2 }

def declaring (site : Site) (name : Name) : Site :=
  { site with scopes := (Scope.declare name site.scopes).2 }

def introducing (site : Site) (name : Name) : Site :=
  { site with scopes := (Scope.introduce name site.scopes).2 }

/-- Where a function is declared, its own name in scope. -/
def ofFunction (site : Site) (name : Name) : Site :=
  { site.introducing name with context := { site.context with function := .function } }

def inBlock (site : Site) (frame : FrameRef) : Site :=
  { site with scopes := ∅ :: site.scopes, frames := frame :: site.frames }

def inCall (site : Site) (params : List Name) (frame : FrameRef) : Site :=
  { site with
    scopes := (Scope.introduceAll params (∅ :: site.scopes)).2
    frames := frame :: site.frames }

end Site

/-- Where a class is declared, and the frame made for its superclass, if it has one. -/
structure ClassSite where
  site : Site
  superFrame : Option FrameRef

namespace ClassSite

def top : ClassSite :=
  ⟨.top, none⟩

def owner (type : ClassSite) : EnclosingClass :=
  type.superFrame.elim .withoutSuperclass fun _ => .withSuperclass

def scopes (type : ClassSite) : List Scope :=
  type.superFrame.elim type.site.scopes fun _ => Scope.single Scope.superName :: type.site.scopes

def frames (type : ClassSite) : List FrameRef :=
  type.superFrame.elim type.site.frames fun frame => frame :: type.site.frames

/-- Where a method is declared, once a frame for its instance is made. -/
def bound (type : ClassSite) (method : Closure) : Site where
  context :=
    { function := if method.decl.isInitializer then .initializer else .method, owner := type.owner }
  scopes := Scope.single Scope.thisName :: type.scopes
  frames := method.scope :: type.frames

end ClassSite

/-- An expression that is being evaluated, at its place and on the machine as it is. -/
structure Moment where
  node : Expr
  site : Site
  machine : Machine

/-- The places of all functions and classes that there are, each evaluation of an expression that was
begun, and each assignment that was about to be made; the latest first. -/
structure Journal where
  functions : Array Site
  classes : Array ClassSite
  moments : List Moment
  assignments : List Moment

structure Watch where
  machine : Machine
  journal : Journal

/-- The class, among the first `count` ones upward, in which a method is found. -/
def Machine.ownerAmong? (m : Machine) (name : String) : (count : Nat) → ClassRef → Option ClassRef
  | 0, _ => none
  | count + 1, ref =>
    (m.class? ref).bind fun found =>
      if found.methods.contains name then some ref
      else found.superclass.bind (m.ownerAmong? name count)

namespace Watch

def functionSite (w : Watch) : Value → Site
  | .functionAt ref => w.journal.functions[ref.index]?.getD .top
  | _ => .top

/-- The place of the class in which a method is found. -/
def methodSite (w : Watch) (ref : ClassRef) (name : String) : ClassSite :=
  ((w.machine.ownerAmong? name (ref.index + 1) ref).bind
    fun owner => w.journal.classes[owner.index]?).getD .top

def memberSite (w : Watch) (self : InstanceRef) (name : String) : ClassSite :=
  (w.machine.instance? self).elim .top fun found => w.methodSite found.classRef name

end Watch

/-- A run under watch. -/
abbrev WatchedRun := ExceptT Halt (StateM Watch)

namespace WatchedRun

variable {α : Type}

def lift (x : Run α) : WatchedRun α :=
  ExceptT.mk (StateT.mk fun w =>
    pure ((outcome x w.machine).1, { w with machine := (outcome x w.machine).2 }))

def record (f : Journal → Journal) : WatchedRun Unit :=
  modify fun w => { w with journal := f w.journal }

def note (node : Expr) (site : Site) : WatchedRun Unit :=
  modify fun w =>
    { w with journal.moments := ⟨node, site, w.machine⟩ :: w.journal.moments }

def noteAssignment (node : Expr) (site : Site) : WatchedRun Unit :=
  modify fun w =>
    { w with journal.assignments := ⟨node, site, w.machine⟩ :: w.journal.assignments }

def newFunction (closure : Closure) (site : Site) : WatchedRun FunctionRef := do
  record fun j => { j with functions := j.functions.push site }
  lift (Run.newFunction closure)

def within (frame : FrameRef) (body : WatchedRun α) : WatchedRun α :=
  ExceptT.mk do
    let outer := (← get).machine.current
    modify fun w => { w with machine.current := frame }
    let result ← body.run
    modify fun w => { w with machine.current := outer }
    return result

def sequence (execute : Site → Stmt → WatchedRun Completion) :
    Site → List Stmt → WatchedRun Completion
  | _, [] => return .normal
  | site, stated :: rest => do
    match ← execute site stated with
    | .normal => sequence execute (site.after stated) rest
    | .returned value => return .returned value

def evaluateEach (evaluate : Expr → WatchedRun Value) : List Expr → WatchedRun (List Value)
  | [] => return []
  | expr :: rest => do
    let value ← evaluate expr
    return value :: (← evaluateEach evaluate rest)

def bound (method : Closure) (type : ClassSite) (self : InstanceRef) :
    WatchedRun (Closure × Site) := do
  let closure ← lift (Run.bound method self)
  return (closure, type.bound closure)

def boundValue (method : Closure) (type : ClassSite) (self : InstanceRef) : WatchedRun Value := do
  let (closure, site) ← bound method type self
  return .functionAt (← newFunction closure site)

def invoke (execute : Site → Stmt → WatchedRun Completion) (closure : Closure) (site : Site)
    (arguments : List Value) : WatchedRun Value := do
  let bindings := (∅ : Bindings Value).insertAll
    ((closure.decl.params.map Name.text).zip arguments)
  let frame ← lift (Run.newFrame closure.scope bindings)
  let completion ←
    within frame (sequence execute (site.inCall closure.decl.params frame) closure.decl.body)
  if closure.isInitializer then
    return ((← get).machine.frames.lookup? closure.scope Scope.thisName).getD .nil
  else return completion.value

def call (execute : Site → Stmt → WatchedRun Completion) (callable : Callable) (site : Site)
    (type : ClassSite) (arguments : List Value) : WatchedRun Value :=
  match callable with
  | .native .clock => .number <$> lift Run.readClock
  | .function closure => invoke execute closure site arguments
  | .construct ref initializer => do
    let self ← lift (Run.newInstance ref)
    if let some method := initializer then
      let (closure, site) ← bound method type self
      let _ ← invoke execute closure site arguments
    return .instanceAt self

/-- The place of the class in which the initializer is found that a call of the value runs. -/
def initializerSite (w : Watch) : Value → ClassSite
  | .classAt ref => w.methodSite ref initializerName
  | _ => .top

def callValue (execute : Site → Stmt → WatchedRun Completion) (callee : Value)
    (arguments : List Value) (line : Nat) : WatchedRun Value := do
  let w ← get
  let callable ← lift (Run.require (w.machine.callable? callee) .notCallable line)
  if arguments.length = callable.arity then
    call execute callable (w.functionSite callee) (initializerSite w callee) arguments
  else lift (Run.fail (.arityMismatch callable.arity arguments.length) line)

def getProperty (object : Value) (property : Name) : WatchedRun Value := do
  let .instanceAt self := object | lift (Run.fail .getOnNonInstance property.line)
  let w ← get
  let member ← lift (Run.require (w.machine.member? self property.text)
    (.undefinedProperty property.text) property.line)
  match member with
  | .field value => return value
  | .method method => boundValue method (w.memberSite self property.text) self

def getSuper (keyword : Reference) (method : Name) : WatchedRun Value := do
  let w ← get
  let (superclass, self) ← lift (Run.require (w.machine.super? keyword)
    (.undefinedVariable keyword.name.text) keyword.name.line)
  let found ← lift (Run.require (w.machine.method? superclass method.text)
    (.undefinedProperty method.text) method.line)
  boundValue found (w.methodSite superclass method.text) self

def superclassOf (site : Site) (target : Reference) : WatchedRun ClassRef := do
  note (.read target) site
  lift (Run.superclassOf target)

def declareFunction (site : Site) (decl : FunctionDecl) : WatchedRun Unit := do
  let frame ← lift Run.currentFrame
  let ref ← newFunction ⟨decl, frame, false⟩ (site.ofFunction decl.name)
  lift (Run.define frame decl.name.text (.functionAt ref))

def makeClass (decl : ClassDecl) (superclass : Option ClassRef) (scope : FrameRef)
    (type : ClassSite) : WatchedRun ClassRef := do
  record fun j => { j with classes := j.classes.push type }
  lift (Run.makeClass decl superclass scope)

def declareClass (site : Site) (decl : ClassDecl) : WatchedRun Unit := do
  let superclass ← decl.superclass.mapM (superclassOf (site.introducing decl.name))
  let frame ← lift Run.currentFrame
  lift (Run.define frame decl.name.text .nil)
  let scope ← match superclass with
    | some ref =>
      lift (Run.newFrame frame ((∅ : Bindings Value).insert Scope.superName (.classAt ref)))
    | none => pure frame
  let ref ← makeClass decl superclass scope
    ⟨site.introducing decl.name, superclass.map fun _ => scope⟩
  lift (Run.define frame decl.name.text (.classAt ref))

mutual

def evaluate : (fuel : Nat) → Site → Expr → WatchedRun Value
  | 0, _, _ => throw .outOfFuel
  | fuel + 1, site, node => do
    note node site
    match node with
    | .literal value => return .ofLiteral value
    | .grouping inner => evaluate fuel site inner
    | .unary op line operand => do
      lift (Run.ofResult line (op.apply (← evaluate fuel site operand)))
    | .binary op line left right => do
      let left ← evaluate fuel site left
      let right ← evaluate fuel site right
      lift (Run.ofResult line (op.apply left right))
    | .logical op _ left right => do
      let left ← evaluate fuel site left
      if op.isDecidedBy left then return left else evaluate fuel site right
    | .read target => lift (Run.read target)
    | .assign target value => do
      let value ← evaluate fuel site value
      noteAssignment node site
      lift (Run.assign target value)
      return value
    | .call callee arguments line => do
      let callee ← evaluate fuel site callee
      let arguments ← evaluateEach (evaluate fuel site) arguments
      callValue (execute fuel) callee arguments line
    | .get object property => do
      getProperty (← evaluate fuel site object) property
    | .set object property value => do
      let .instanceAt self := ← evaluate fuel site object
        | lift (Run.fail .setOnNonInstance property.line)
      let value ← evaluate fuel site value
      lift (Run.setField self property.text value)
      return value
    | .this keyword => lift (Run.read keyword)
    | .super keyword method => getSuper keyword method

def execute : (fuel : Nat) → Site → Stmt → WatchedRun Completion
  | 0, _, _ => throw .outOfFuel
  | fuel + 1, site, .expression value => do
    let _ ← evaluate fuel site value
    return .normal
  | fuel + 1, site, .print line value => do
    let value ← evaluate fuel site value
    lift (Run.print ((← get).machine.textOf value) line)
    return .normal
  | fuel + 1, site, .varDecl name initial => do
    let value ← initial.elim (return .nil) (evaluate fuel (site.declaring name))
    lift (Run.define (← lift Run.currentFrame) name.text value)
    return .normal
  | _ + 1, site, .functionDecl decl => do
    declareFunction site decl
    return .normal
  | _ + 1, site, .classDecl decl => do
    declareClass site decl
    return .normal
  | fuel + 1, site, .block body => do
    let frame ← lift (Run.newFrame (← lift Run.currentFrame) ∅)
    within frame (sequence (execute fuel) (site.inBlock frame) body)
  | fuel + 1, site, .ifElse condition thenBranch elseBranch => do
    if (← evaluate fuel site condition).isTruthy then execute fuel site thenBranch
    else elseBranch.elim (return .normal) (execute fuel (site.after thenBranch))
  | fuel + 1, site, .whileLoop condition body => do
    if (← evaluate fuel site condition).isTruthy then
      match ← execute fuel site body with
      | .normal => execute fuel site (.whileLoop condition body)
      | .returned value => return .returned value
    else return .normal
  | fuel + 1, site, .ret _ value => do
    return .returned (← value.elim (return .nil) (evaluate fuel site))

end

def executeProgram (fuel : Nat) : Site → Program → WatchedRun Unit
  | _, [] => return ()
  | site, stated :: rest => do
    let _ ← execute fuel site stated
    executeProgram fuel (site.after stated) rest

end WatchedRun

end Lox
