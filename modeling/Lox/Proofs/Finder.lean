import Lox.Eval.Evaluate
import Mathlib.Tactic.Common

/-! Evaluation with any way of finding the frame that binds a use of a name. The one by the binding
table is evaluation itself; another goes by the names alone. -/

namespace Lox

/-- Tells which frame binds a use of a name. -/
abbrev Finder := Machine → Reference → Option FrameRef

/-- Finds the nearest frame outward from the current one that binds the name. -/
def Finder.byName : Finder :=
  fun m target => m.frames.binder? m.current target.name.text

namespace Run

def readBy (find : Finder) (target : Reference) : Run Value := do
  let m ← get
  require ((find m target).bind (m.frames.lookup? · target.name.text))
    (.undefinedVariable target.name.text) target.name.line

def assignBy (find : Finder) (target : Reference) (value : Value) : Run Unit := do
  let frame ← require (find (← get) target) (.undefinedVariable target.name.text) target.name.line
  define frame target.name.text value

def superclassOfBy (find : Finder) (target : Reference) : Run ClassRef := do
  let .classAt ref := ← readBy find target | fail .superclassNotClass target.name.line
  return ref

def declareClassBy (find : Finder) (decl : ClassDecl) : Run Unit := do
  let superclass ← decl.superclass.mapM (superclassOfBy find)
  let frame ← currentFrame
  define frame decl.name.text .nil
  let scope ← match superclass with
    | some ref => newFrame frame ((∅ : Bindings Value).insert Scope.superName (.classAt ref))
    | none => pure frame
  let ref ← makeClass decl superclass scope
  define frame decl.name.text (.classAt ref)

end Run

mutual

/-- Evaluates an expression. Variables and `this` are found by the finder, and `super` by its
distance. -/
def evaluateBy (find : Finder) : (fuel : Nat) → Expr → Run Value
  | 0, _ => throw .outOfFuel
  | _ + 1, .literal value => return .ofLiteral value
  | fuel + 1, .grouping inner => evaluateBy find fuel inner
  | fuel + 1, .unary op line operand => do
    Run.ofResult line (op.apply (← evaluateBy find fuel operand))
  | fuel + 1, .binary op line left right => do
    let left ← evaluateBy find fuel left
    let right ← evaluateBy find fuel right
    Run.ofResult line (op.apply left right)
  | fuel + 1, .logical op _ left right => do
    let left ← evaluateBy find fuel left
    if op.isDecidedBy left then return left else evaluateBy find fuel right
  | _ + 1, .read target => Run.readBy find target
  | fuel + 1, .assign target value => do
    let value ← evaluateBy find fuel value
    Run.assignBy find target value
    return value
  | fuel + 1, .call callee arguments line => do
    let callee ← evaluateBy find fuel callee
    let arguments ← Run.evaluateEach (evaluateBy find fuel) arguments
    Run.callValue (executeBy find fuel) callee arguments line
  | fuel + 1, .get object property => do
    Run.getProperty (← evaluateBy find fuel object) property
  | fuel + 1, .set object property value => do
    let .instanceAt self := ← evaluateBy find fuel object
      | Run.fail .setOnNonInstance property.line
    let value ← evaluateBy find fuel value
    Run.setField self property.text value
    return value
  | _ + 1, .this keyword => Run.readBy find keyword
  | _ + 1, .super keyword method => Run.getSuper keyword method

def executeBy (find : Finder) : (fuel : Nat) → Stmt → Run Completion
  | 0, _ => throw .outOfFuel
  | fuel + 1, .expression value => do
    let _ ← evaluateBy find fuel value
    return .normal
  | fuel + 1, .print line value => do
    let value ← evaluateBy find fuel value
    Run.print ((← get).textOf value) line
    return .normal
  | fuel + 1, .varDecl name initial => do
    let value ← initial.elim (return .nil) (evaluateBy find fuel)
    Run.define (← Run.currentFrame) name.text value
    return .normal
  | _ + 1, .functionDecl decl => do
    Run.declareFunction decl
    return .normal
  | _ + 1, .classDecl decl => do
    Run.declareClassBy find decl
    return .normal
  | fuel + 1, .block body => do
    let frame ← Run.newFrame (← Run.currentFrame) ∅
    Run.within frame (Run.sequence (executeBy find fuel) body)
  | fuel + 1, .ifElse condition thenBranch elseBranch => do
    if (← evaluateBy find fuel condition).isTruthy then executeBy find fuel thenBranch
    else elseBranch.elim (return .normal) (executeBy find fuel)
  | fuel + 1, .whileLoop condition body => do
    if (← evaluateBy find fuel condition).isTruthy then
      match ← executeBy find fuel body with
      | .normal => executeBy find fuel (.whileLoop condition body)
      | .returned value => return .returned value
    else return .normal
  | fuel + 1, .ret _ value => do
    return .returned (← value.elim (return .nil) (evaluateBy find fuel))

end

def Program.executeBy (find : Finder) (fuel : Nat) : Program → Run Unit
  | [] => return ()
  | stated :: rest => do
    let _ ← Lox.executeBy find fuel stated
    Program.executeBy find fuel rest

lemma evaluateBy_zero (find : Finder) (value : Expr) :
    evaluateBy find 0 value = throw .outOfFuel := by
  cases value <;> rfl

lemma executeBy_zero (find : Finder) (stated : Stmt) :
    executeBy find 0 stated = throw .outOfFuel := by
  cases stated <;> rfl

lemma Run.declareClassBy_binder? (decl : ClassDecl) :
    Run.declareClassBy Machine.binder? decl = Run.declareClass decl :=
  (Run.declareClass_eq decl).symm

lemma evaluateBy_binder?_succ {fuel : Nat}
    (h : evaluateBy Machine.binder? fuel = evaluate fuel)
    (hx : executeBy Machine.binder? fuel = execute fuel) :
    evaluateBy Machine.binder? (fuel + 1) = evaluate (fuel + 1) := by
  funext value
  cases value <;> simp only [evaluateBy, evaluate, h, hx] <;> rfl

lemma executeBy_binder?_succ {fuel : Nat}
    (h : evaluateBy Machine.binder? fuel = evaluate fuel)
    (hx : executeBy Machine.binder? fuel = execute fuel) :
    executeBy Machine.binder? (fuel + 1) = execute (fuel + 1) := by
  funext stated
  cases stated with
  | whileLoop condition body =>
    rw [executeBy, h, hx]
    rfl
  | _ => simp only [executeBy, execute, h, hx, Run.declareClassBy_binder?]

/-- Finding frames by the binding table is what evaluation does. -/
lemma byTable (fuel : Nat) :
    evaluateBy Machine.binder? fuel = evaluate fuel ∧
      executeBy Machine.binder? fuel = execute fuel := by
  induction fuel with
  | zero => constructor <;> funext tree <;> cases tree <;> rfl
  | succ fuel ih =>
    exact ⟨evaluateBy_binder?_succ ih.1 ih.2, executeBy_binder?_succ ih.1 ih.2⟩

lemma Program.executeBy_binder? (fuel : Nat) (program : Program) :
    Program.executeBy Machine.binder? fuel program = Program.execute fuel program := by
  induction program with
  | nil => rfl
  | cons stated rest ih => rw [Program.executeBy, Program.execute, (byTable fuel).2, ih]

end Lox
