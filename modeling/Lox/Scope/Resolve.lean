import Lox.Bindings
import Lox.Scope.Table
import Lox.Scope.Violation

/-!
Lexical scopes. Every use of a name is looked up in the scopes around it, the innermost first, and
what a program does against the static rules is found on the way.

At the top level there is no scope, so global names are neither declared nor found. A class puts a
scope with `this` around its methods, and a class with a superclass puts one with `super` around
that one.
-/

namespace Lox

/-- A name is declared when its declaration begins and defined when that is over. -/
inductive NameState
  | declared | defined
deriving DecidableEq, Repr

abbrev Scope := Bindings NameState

inductive EnclosingFunction
  | none | function | method | initializer
deriving DecidableEq, Repr

inductive EnclosingClass
  | none | withoutSuperclass | withSuperclass
deriving DecidableEq, Repr

/-- What stands around a place in a program, besides its scopes. -/
structure Context where
  function : EnclosingFunction
  owner : EnclosingClass
deriving DecidableEq, Repr

/-- What is found out about a part of a program, in the order in which it is gone through. -/
structure Findings where
  distances : List Distance
  violations : List Violation
deriving DecidableEq, Repr

namespace Findings

instance : EmptyCollection Findings :=
  ⟨⟨[], []⟩⟩

instance : Append Findings :=
  ⟨fun a b => ⟨a.distances ++ b.distances, a.violations ++ b.violations⟩⟩

def violation (cause : Violation.Cause) (name : Name) : Findings :=
  ⟨[], [⟨cause, name⟩]⟩

/-- A static rule is broken at a name if a condition holds. -/
def violationIf (condition : Bool) (cause : Violation.Cause) (name : Name) : Findings :=
  if condition then violation cause name else ∅

/-- Where a use of a name is bound, if a scope has the name. -/
def bound (scopes : List Scope) (id : Nat) (name : String) : Findings :=
  match scopes.findIdx? (·.contains name) with
  | some distance => ⟨[(id, distance)], []⟩
  | none => ∅

@[simp] theorem distances_append (a b : Findings) :
    (a ++ b).distances = a.distances ++ b.distances :=
  rfl

@[simp] theorem violations_append (a b : Findings) :
    (a ++ b).violations = a.violations ++ b.violations :=
  rfl

end Findings

namespace Scope

/-- The name under which methods find their instance. -/
def thisName : String :=
  "this"

/-- The name under which methods find the superclass. -/
def superName : String :=
  "super"

/-- A scope with one name, which is defined. -/
def single (name : String) : Scope :=
  (∅ : Scope).insert name .defined

/-- Declares a name in the innermost scope, which must not have it yet. -/
def declare (name : Name) : List Scope → Findings × List Scope
  | [] => (∅, [])
  | scope :: outer =>
    (.violationIf (scope.contains name.text) .alreadyDeclared name,
      scope.insert name.text .declared :: outer)

def define (name : Name) : List Scope → List Scope
  | [] => []
  | scope :: outer => scope.insert name.text .defined :: outer

/-- Declares a name in the innermost scope and defines it at once. -/
def introduce (name : Name) (scopes : List Scope) : Findings × List Scope :=
  let (findings, scopes) := declare name scopes
  (findings, define name scopes)

def introduceAll : List Name → List Scope → Findings × List Scope
  | [], scopes => (∅, scopes)
  | name :: names, scopes =>
    let (first, scopes) := introduce name scopes
    let (others, scopes) := introduceAll names scopes
    (first ++ others, scopes)

/-- Whether the innermost scope has a name that is declared and not yet defined. -/
def isBeingDefined (name : String) : List Scope → Bool
  | [] => false
  | scope :: _ => scope.get? name == some .declared

end Scope

/-- A use of a variable; not one in its own initial value. -/
def Reference.resolveRead (scopes : List Scope) (target : Reference) : Findings :=
  .violationIf (Scope.isBeingDefined target.name.text scopes) .readInOwnInitializer target.name ++
    .bound scopes target.id target.name.text

mutual

def Expr.resolve (context : Context) (scopes : List Scope) : Expr → Findings
  | .literal _ => ∅
  | .grouping inner => inner.resolve context scopes
  | .unary _ _ operand => operand.resolve context scopes
  | .binary _ _ left right => left.resolve context scopes ++ right.resolve context scopes
  | .logical _ _ left right => left.resolve context scopes ++ right.resolve context scopes
  | .read target => target.resolveRead scopes
  | .assign target value =>
    value.resolve context scopes ++ .bound scopes target.id target.name.text
  | .call callee arguments _ =>
    callee.resolve context scopes ++ Expr.resolveAll context scopes arguments
  | .get object _ => object.resolve context scopes
  | .set object _ value => value.resolve context scopes ++ object.resolve context scopes
  | .this keyword =>
    if context.owner = .none then .violation .thisOutsideClass keyword.name
    else .bound scopes keyword.id Scope.thisName
  | .super keyword _ =>
    .violationIf (context.owner = .none) .superOutsideClass keyword.name ++
      .violationIf (context.owner = .withoutSuperclass) .superWithoutSuperclass keyword.name ++
      .bound scopes keyword.id Scope.superName

def Expr.resolveAll (context : Context) (scopes : List Scope) : List Expr → Findings
  | [] => ∅
  | value :: rest => value.resolve context scopes ++ Expr.resolveAll context scopes rest

end

def Expr.resolveOption (context : Context) (scopes : List Scope) : Option Expr → Findings
  | none => ∅
  | some value => value.resolve context scopes

def Stmt.resolveReturn (context : Context) (scopes : List Scope) (keyword : Name)
    (value : Option Expr) : Findings :=
  .violationIf (context.function = .none) .returnFromTopLevel keyword ++
    .violationIf (value.isSome && context.function = .initializer) .returnFromInitializer keyword ++
    Expr.resolveOption context scopes value

mutual

/-- What is found out about a statement, and the scopes after it. -/
def Stmt.resolve (context : Context) (scopes : List Scope) : Stmt → Findings × List Scope
  | .expression value => (value.resolve context scopes, scopes)
  | .print _ value => (value.resolve context scopes, scopes)
  | .varDecl name initial =>
    let (declared, inside) := Scope.declare name scopes
    (declared ++ Expr.resolveOption context inside initial, Scope.define name inside)
  | .functionDecl decl =>
    let (introduced, inside) := Scope.introduce decl.name scopes
    (introduced ++ decl.resolve { context with function := .function } inside, inside)
  | .classDecl decl =>
    let (introduced, inside) := Scope.introduce decl.name scopes
    (introduced ++ decl.resolve context inside, inside)
  | .block body => ((Stmt.resolveAll context (∅ :: scopes) body).1, scopes)
  | .ifElse condition thenBranch none =>
    let (findings, after) := thenBranch.resolve context scopes
    (condition.resolve context scopes ++ findings, after)
  | .ifElse condition thenBranch (some elseBranch) =>
    let (first, between) := thenBranch.resolve context scopes
    let (second, after) := elseBranch.resolve context between
    (condition.resolve context scopes ++ first ++ second, after)
  | .whileLoop condition body =>
    let (findings, after) := body.resolve context scopes
    (condition.resolve context scopes ++ findings, after)
  | .ret keyword value => (Stmt.resolveReturn context scopes keyword value, scopes)

def Stmt.resolveAll (context : Context) (scopes : List Scope) :
    List Stmt → Findings × List Scope
  | [] => (∅, scopes)
  | statement :: rest =>
    let (first, between) := statement.resolve context scopes
    let (others, after) := Stmt.resolveAll context between rest
    (first ++ others, after)

/-- What is found out about a function. Its parameters and its body share a scope. -/
def FunctionDecl.resolve (context : Context) (scopes : List Scope) : FunctionDecl → Findings
  | ⟨_, params, body⟩ =>
    let (introduced, inside) := Scope.introduceAll params (∅ :: scopes)
    introduced ++ (Stmt.resolveAll context inside body).1

/-- What is found out about a class whose name is in scope. -/
def ClassDecl.resolve (context : Context) (scopes : List Scope) : ClassDecl → Findings
  | ⟨_, none, methods⟩ =>
    FunctionDecl.resolveMethods { context with owner := .withoutSuperclass }
      (Scope.single Scope.thisName :: scopes) methods
  | ⟨name, some superclass, methods⟩ =>
    .violationIf (superclass.name.text == name.text) .inheritsFromItself superclass.name ++
      superclass.resolveRead scopes ++
      FunctionDecl.resolveMethods { context with owner := .withSuperclass }
        (Scope.single Scope.thisName :: Scope.single Scope.superName :: scopes) methods

def FunctionDecl.resolveMethods (context : Context) (scopes : List Scope) :
    List FunctionDecl → Findings
  | [] => ∅
  | method :: rest =>
    method.resolve
        { context with function := if method.isInitializer then .initializer else .method }
        scopes ++
      FunctionDecl.resolveMethods context scopes rest

end

/-- Where the local names of a program are bound, or all its violations. -/
def Program.resolve (program : Program) : Except (List Violation) (List Distance) :=
  let findings := (Stmt.resolveAll ⟨.none, .none⟩ [] program).1
  match findings.violations with
  | [] => .ok findings.distances
  | violations => .error violations

end Lox
