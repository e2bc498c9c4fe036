import Lox.Scope.Resolve
import Lox.Proofs.Identity.Renaming

/-! Resolution as a sequence of events: the expressions and declarations to which it comes, each with
what stands around it there. What is found out about a program is what these events give rise to. -/

namespace Lox

/-- An expression to which resolution comes. -/
structure Visit where
  node : Expr
  context : Context
  scopes : List Scope

inductive Event
  | visit (v : Visit)
  | declare (name : Name) (scopes : List Scope)
  | ret (context : Context) (keyword : Name) (value : Option Expr)
  | inherit (name : Name) (superclass : Reference)

/-- The identity of an expression that uses a name, and the name under which it is looked up. -/
def Expr.use? : Expr → Option (Nat × String)
  | .read target | .assign target _ => some (target.id, target.name.text)
  | .this keyword => some (keyword.id, Scope.thisName)
  | .super keyword _ => some (keyword.id, Scope.superName)
  | _ => none

/-- What is found out about an expression apart from the expressions in it. -/
def Visit.findings (v : Visit) : Findings :=
  match v.node with
  | .read target => target.resolveRead v.scopes
  | .assign target _ => .bound v.scopes target.id target.name.text
  | .this keyword => (Expr.this keyword).resolve v.context v.scopes
  | .super keyword method => (Expr.super keyword method).resolve v.context v.scopes
  | _ => ∅

def Event.findings : Event → Findings
  | visit v => v.findings
  | declare name scopes => (Scope.declare name scopes).1
  | ret context keyword value =>
    .violationIf (context.function = .none) .returnFromTopLevel keyword ++
      .violationIf (value.isSome && context.function = .initializer) .returnFromInitializer keyword
  | inherit name superclass =>
    .violationIf (superclass.name.text == name.text) .inheritsFromItself superclass.name

def Findings.ofEvents : List Event → Findings
  | [] => ∅
  | event :: rest => event.findings ++ ofEvents rest

def Event.id? : Event → Option Nat
  | visit v => v.node.use?.map Prod.fst
  | _ => none

def Scope.introductions : List Name → List Scope → List Event
  | [], _ => []
  | name :: names, scopes =>
    .declare name scopes :: introductions names (Scope.introduce name scopes).2

mutual

def Expr.events (context : Context) (scopes : List Scope) : Expr → List Event
  | .literal value => [.visit ⟨.literal value, context, scopes⟩]
  | .grouping inner => inner.events context scopes ++ [.visit ⟨.grouping inner, context, scopes⟩]
  | .unary op line operand =>
    operand.events context scopes ++ [.visit ⟨.unary op line operand, context, scopes⟩]
  | .binary op line left right =>
    left.events context scopes ++ (right.events context scopes ++
      [.visit ⟨.binary op line left right, context, scopes⟩])
  | .logical op line left right =>
    left.events context scopes ++ (right.events context scopes ++
      [.visit ⟨.logical op line left right, context, scopes⟩])
  | .read target => [.visit ⟨.read target, context, scopes⟩]
  | .assign target value =>
    value.events context scopes ++ [.visit ⟨.assign target value, context, scopes⟩]
  | .call callee arguments line =>
    callee.events context scopes ++ (Expr.eventsAll context scopes arguments ++
      [.visit ⟨.call callee arguments line, context, scopes⟩])
  | .get object property =>
    object.events context scopes ++ [.visit ⟨.get object property, context, scopes⟩]
  | .set object property value =>
    value.events context scopes ++ (object.events context scopes ++
      [.visit ⟨.set object property value, context, scopes⟩])
  | .this keyword => [.visit ⟨.this keyword, context, scopes⟩]
  | .super keyword method => [.visit ⟨.super keyword method, context, scopes⟩]

def Expr.eventsAll (context : Context) (scopes : List Scope) : List Expr → List Event
  | [] => []
  | value :: rest => value.events context scopes ++ Expr.eventsAll context scopes rest

end

def Expr.eventsOption (context : Context) (scopes : List Scope) : Option Expr → List Event
  | none => []
  | some value => value.events context scopes

mutual

def Stmt.events (context : Context) (scopes : List Scope) : Stmt → List Event
  | .expression value => value.events context scopes
  | .print _ value => value.events context scopes
  | .varDecl name initial =>
    .declare name scopes :: Expr.eventsOption context (Scope.declare name scopes).2 initial
  | .functionDecl decl =>
    .declare decl.name scopes ::
      decl.events { context with function := .function } (Scope.introduce decl.name scopes).2
  | .classDecl decl =>
    .declare decl.name scopes :: decl.events context (Scope.introduce decl.name scopes).2
  | .block body => Stmt.eventsAll context (∅ :: scopes) body
  | .ifElse condition thenBranch none =>
    condition.events context scopes ++ thenBranch.events context scopes
  | .ifElse condition thenBranch (some elseBranch) =>
    condition.events context scopes ++ (thenBranch.events context scopes ++
      elseBranch.events context (thenBranch.resolve context scopes).2)
  | .whileLoop condition body => condition.events context scopes ++ body.events context scopes
  | .ret keyword value => .ret context keyword value :: Expr.eventsOption context scopes value

def Stmt.eventsAll (context : Context) (scopes : List Scope) : List Stmt → List Event
  | [] => []
  | stated :: rest =>
    stated.events context scopes ++ Stmt.eventsAll context (stated.resolve context scopes).2 rest

def FunctionDecl.events (context : Context) (scopes : List Scope) : FunctionDecl → List Event
  | ⟨_, params, body⟩ =>
    Scope.introductions params (∅ :: scopes) ++
      Stmt.eventsAll context (Scope.introduceAll params (∅ :: scopes)).2 body

def ClassDecl.events (context : Context) (scopes : List Scope) : ClassDecl → List Event
  | ⟨_, none, methods⟩ =>
    FunctionDecl.eventsMethods { context with owner := .withoutSuperclass }
      (Scope.single Scope.thisName :: scopes) methods
  | ⟨name, some superclass, methods⟩ =>
    .inherit name superclass :: .visit ⟨.read superclass, context, scopes⟩ ::
      FunctionDecl.eventsMethods { context with owner := .withSuperclass }
        (Scope.single Scope.thisName :: Scope.single Scope.superName :: scopes) methods

def FunctionDecl.eventsMethods (context : Context) (scopes : List Scope) :
    List FunctionDecl → List Event
  | [] => []
  | method :: rest =>
    method.events { context with function := if method.isInitializer then .initializer else .method }
        scopes ++
      FunctionDecl.eventsMethods context scopes rest

end

/-- The events of resolving a program. -/
def Program.events (program : Program) : List Event :=
  Stmt.eventsAll ⟨.none, .none⟩ [] program

lemma Expr.visit_mem_events (context : Context) (scopes : List Scope) (value : Expr) :
    .visit ⟨value, context, scopes⟩ ∈ value.events context scopes := by
  cases value <;> simp [Expr.events]

lemma FunctionDecl.mem_events_of_body {decl : FunctionDecl} {context : Context}
    {scopes : List Scope} {event : Event}
    (h : event ∈ Stmt.eventsAll context (Scope.introduceAll decl.params (∅ :: scopes)).2 decl.body) :
    event ∈ decl.events context scopes := by
  cases decl
  exact List.mem_append_right _ h

lemma FunctionDecl.mem_eventsMethods {methods : List FunctionDecl} {method : FunctionDecl}
    (hm : method ∈ methods) {context : Context} {scopes : List Scope} {event : Event}
    (h : event ∈ method.events
      { context with function := if method.isInitializer then .initializer else .method } scopes) :
    event ∈ FunctionDecl.eventsMethods context scopes methods := by
  induction methods with
  | nil => simp at hm
  | cons first rest ih =>
    rcases List.mem_cons.mp hm with rfl | hm
    · exact List.mem_append_left _ h
    · exact List.mem_append_right _ (ih hm)

namespace Findings

lemma append_empty (a : Findings) : a ++ ∅ = a := by
  obtain ⟨distances, violations⟩ := a
  change Findings.mk (distances ++ []) (violations ++ []) = _
  simp

lemma append_assoc (a b c : Findings) : a ++ b ++ c = a ++ (b ++ c) := by
  change Findings.mk _ _ = Findings.mk _ _
  simp [List.append_assoc]

lemma ofEvents_append (es fs : List Event) : ofEvents (es ++ fs) = ofEvents es ++ ofEvents fs := by
  induction es with
  | nil => rfl
  | cons event rest ih => simp only [List.cons_append, ofEvents, ih, append_assoc]

end Findings

open Findings

section Expressions

variable (context : Context) (scopes : List Scope)

mutual

lemma Expr.resolve_eq_ofEvents (value : Expr) :
    value.resolve context scopes = ofEvents (value.events context scopes) := by
  cases value with
  | literal => rfl
  | read | this | super =>
    simp only [Expr.events, ofEvents, Event.findings, Visit.findings, append_empty, Expr.resolve]
  | grouping inner | unary _ _ inner | get inner _ | assign _ inner =>
    simp only [Expr.resolve, Expr.events, ofEvents_append, Expr.resolve_eq_ofEvents inner, ofEvents,
      Event.findings, Visit.findings, append_empty]
  | binary _ _ left right | logical _ _ left right | set right _ left =>
    simp only [Expr.resolve, Expr.events, ofEvents_append, Expr.resolve_eq_ofEvents left,
      Expr.resolve_eq_ofEvents right, ofEvents, Event.findings, Visit.findings, append_empty]
  | call callee arguments line =>
    simp only [Expr.resolve, Expr.events, ofEvents_append, Expr.resolve_eq_ofEvents callee,
      Expr.resolveAll_eq_ofEvents arguments, ofEvents, Event.findings, Visit.findings, append_empty]

lemma Expr.resolveAll_eq_ofEvents (values : List Expr) :
    Expr.resolveAll context scopes values = ofEvents (Expr.eventsAll context scopes values) := by
  cases values with
  | nil => rfl
  | cons value rest =>
    simp only [Expr.resolveAll, Expr.eventsAll, ofEvents_append, Expr.resolve_eq_ofEvents value,
      Expr.resolveAll_eq_ofEvents rest]

end

lemma Expr.resolveOption_eq_ofEvents (value : Option Expr) :
    Expr.resolveOption context scopes value = ofEvents (Expr.eventsOption context scopes value) := by
  cases value with
  | none => rfl
  | some value => exact value.resolve_eq_ofEvents context scopes

end Expressions

lemma Scope.introduceAll_eq_ofEvents (names : List Name) (scopes : List Scope) :
    (Scope.introduceAll names scopes).1 = ofEvents (Scope.introductions names scopes) := by
  induction names generalizing scopes with
  | nil => rfl
  | cons name names ih => simp only [introduceAll, introductions, ofEvents, ih]; rfl

mutual

lemma Stmt.resolve_eq_ofEvents (context : Context) (scopes : List Scope) (stated : Stmt) :
    (stated.resolve context scopes).1 = ofEvents (stated.events context scopes) := by
  cases stated with
  | expression value | print _ value => exact value.resolve_eq_ofEvents context scopes
  | varDecl name initial =>
    simp only [Stmt.resolve, Stmt.events, ofEvents, Expr.resolveOption_eq_ofEvents, Event.findings]
  | functionDecl decl =>
    simp only [Stmt.resolve, Stmt.events, ofEvents, FunctionDecl.resolve_eq_ofEvents _ _ decl]
    rfl
  | classDecl decl =>
    obtain ⟨name, superclass, methods⟩ := decl
    cases superclass with
    | none =>
      simp only [Stmt.resolve, Stmt.events, ClassDecl.resolve, ClassDecl.events, ofEvents,
        FunctionDecl.resolveMethods_eq_ofEvents _ _ methods]
      rfl
    | some parent =>
      simp only [Stmt.resolve, Stmt.events, ClassDecl.resolve, ClassDecl.events, ofEvents,
        FunctionDecl.resolveMethods_eq_ofEvents _ _ methods, append_assoc]
      rfl
  | block body => exact Stmt.resolveAll_eq_ofEvents _ _ body
  | ifElse condition thenBranch elseBranch =>
    cases elseBranch with
    | none =>
      simp only [Stmt.resolve, Stmt.events, ofEvents_append, Expr.resolve_eq_ofEvents,
        Stmt.resolve_eq_ofEvents _ _ thenBranch]
    | some elseBranch =>
      simp only [Stmt.resolve, Stmt.events, ofEvents_append, Expr.resolve_eq_ofEvents,
        Stmt.resolve_eq_ofEvents _ _ thenBranch, Stmt.resolve_eq_ofEvents _ _ elseBranch,
        append_assoc]
  | whileLoop condition body =>
    simp only [Stmt.resolve, Stmt.events, ofEvents_append, Expr.resolve_eq_ofEvents,
      Stmt.resolve_eq_ofEvents _ _ body]
  | ret keyword value =>
    simp only [Stmt.resolve, Stmt.resolveReturn, Stmt.events, ofEvents, Event.findings,
      Expr.resolveOption_eq_ofEvents]

lemma Stmt.resolveAll_eq_ofEvents (context : Context) (scopes : List Scope) (body : List Stmt) :
    (Stmt.resolveAll context scopes body).1 = ofEvents (Stmt.eventsAll context scopes body) := by
  cases body with
  | nil => rfl
  | cons stated rest =>
    simp only [Stmt.resolveAll, Stmt.eventsAll, ofEvents_append, Stmt.resolve_eq_ofEvents _ _ stated,
      Stmt.resolveAll_eq_ofEvents _ _ rest]

lemma FunctionDecl.resolve_eq_ofEvents (context : Context) (scopes : List Scope)
    (decl : FunctionDecl) :
    decl.resolve context scopes = ofEvents (decl.events context scopes) := by
  obtain ⟨name, params, body⟩ := decl
  simp only [FunctionDecl.resolve, FunctionDecl.events, ofEvents_append,
    Scope.introduceAll_eq_ofEvents, Stmt.resolveAll_eq_ofEvents _ _ body]

lemma FunctionDecl.resolveMethods_eq_ofEvents (context : Context) (scopes : List Scope)
    (methods : List FunctionDecl) :
    FunctionDecl.resolveMethods context scopes methods =
      ofEvents (FunctionDecl.eventsMethods context scopes methods) := by
  cases methods with
  | nil => rfl
  | cons method rest =>
    simp only [FunctionDecl.resolveMethods, FunctionDecl.eventsMethods, ofEvents_append,
      FunctionDecl.resolve_eq_ofEvents _ _ method, FunctionDecl.resolveMethods_eq_ofEvents _ _ rest]

end

end Lox
