import Lox.Proofs.Scope.Events

/-! The names that a program declares, in the order of its text, and those that it uses. -/

namespace Lox

/-- A name that is declared: it is local unless it is declared at top level, and it names a variable
or a parameter, or else a function or a class. -/
structure Declaration where
  name : String
  isLocal : Bool
  isVariable : Bool
deriving DecidableEq, Repr

mutual

def Stmt.declarations (isLocal : Bool) : Stmt → List Declaration
  | .varDecl name _ => [⟨name.text, isLocal, true⟩]
  | .functionDecl decl => ⟨decl.name.text, isLocal, false⟩ :: decl.declarations
  | .classDecl decl => ⟨decl.name.text, isLocal, false⟩ :: decl.declarations
  | .block body => Stmt.declarationsAll true body
  | .ifElse _ thenBranch none => thenBranch.declarations isLocal
  | .ifElse _ thenBranch (some elseBranch) =>
    thenBranch.declarations isLocal ++ elseBranch.declarations isLocal
  | .whileLoop _ body => body.declarations isLocal
  | .expression _ | .print .. | .ret .. => []

def Stmt.declarationsAll (isLocal : Bool) : List Stmt → List Declaration
  | [] => []
  | stated :: rest => stated.declarations isLocal ++ Stmt.declarationsAll isLocal rest

/-- The parameters of a function, and what its body declares. -/
def FunctionDecl.declarations : FunctionDecl → List Declaration
  | ⟨_, params, body⟩ =>
    params.map (fun param => ⟨param.text, true, true⟩) ++ Stmt.declarationsAll true body

def ClassDecl.declarations : ClassDecl → List Declaration
  | ⟨_, _, methods⟩ => FunctionDecl.declarationsAll methods

def FunctionDecl.declarationsAll : List FunctionDecl → List Declaration
  | [] => []
  | method :: rest => method.declarations ++ FunctionDecl.declarationsAll rest

end

def Program.declarations (program : Program) : List Declaration :=
  Stmt.declarationsAll false program

def Event.declared? : Event → Option (String × Bool)
  | declare name scopes => some (name.text, !scopes.isEmpty)
  | _ => none

def Event.declared (es : List Event) : List (String × Bool) :=
  es.filterMap Event.declared?

@[simp] lemma Event.declared_append (es fs : List Event) :
    declared (es ++ fs) = declared es ++ declared fs :=
  List.filterMap_append

lemma Event.mem_declared {es : List Event} {name : String} {isLocal : Bool} :
    (name, isLocal) ∈ declared es ↔
      ∃ decl scopes, .declare decl scopes ∈ es ∧ decl.text = name ∧ isLocal = !scopes.isEmpty := by
  simp only [declared, List.mem_filterMap]
  constructor
  · rintro ⟨event, he, hd⟩
    cases event with
    | declare decl scopes =>
      obtain ⟨rfl, rfl⟩ : decl.text = name ∧ (!scopes.isEmpty) = isLocal := by
        simpa [declared?] using hd
      exact ⟨decl, scopes, he, rfl, rfl⟩
    | visit | ret | inherit => simp [declared?] at hd
  · rintro ⟨decl, scopes, he, rfl, rfl⟩
    exact ⟨_, he, rfl⟩

namespace Scope

variable {scopes : List Scope}

lemma isEmpty_introduce (name : Name) : (introduce name scopes).2.isEmpty = scopes.isEmpty := by
  cases scopes <;> rfl

lemma isEmpty_introduceAll (names : List Name) :
    (introduceAll names scopes).2.isEmpty = scopes.isEmpty := by
  induction names generalizing scopes with
  | nil => rfl
  | cons name names ih => exact ih.trans (isEmpty_introduce name)

end Scope

lemma Event.declared_introductions (names : List Name) (scopes : List Scope) :
    declared (Scope.introductions names scopes) =
      names.map fun name => (name.text, !scopes.isEmpty) := by
  induction names generalizing scopes with
  | nil => rfl
  | cons name names ih =>
    have hrest := ih (Scope.introduce name scopes).2
    rw [Scope.isEmpty_introduce] at hrest
    exact congrArg (_ :: ·) hrest

mutual

lemma Expr.declared_events (context : Context) (scopes : List Scope) (value : Expr) :
    Event.declared (value.events context scopes) = [] := by
  cases value with
  | literal | read | this | super => rfl
  | grouping inner | unary _ _ inner | get inner _ | assign _ inner =>
    simp only [Expr.events, Event.declared_append, Expr.declared_events context scopes inner]
    rfl
  | binary _ _ left right | logical _ _ left right | set left _ right =>
    simp only [Expr.events, Event.declared_append, Expr.declared_events context scopes left,
      Expr.declared_events context scopes right]
    rfl
  | call callee arguments line =>
    simp only [Expr.events, Event.declared_append, Expr.declared_events context scopes callee,
      Expr.declared_eventsAll context scopes arguments]
    rfl

lemma Expr.declared_eventsAll (context : Context) (scopes : List Scope) (values : List Expr) :
    Event.declared (Expr.eventsAll context scopes values) = [] := by
  cases values with
  | nil => rfl
  | cons value rest =>
    simp only [Expr.eventsAll, Event.declared_append, Expr.declared_events context scopes value,
      Expr.declared_eventsAll context scopes rest, List.append_nil]

end

lemma Expr.declared_eventsOption (context : Context) (scopes : List Scope) (value : Option Expr) :
    Event.declared (Expr.eventsOption context scopes value) = [] := by
  cases value with
  | none => rfl
  | some value => exact value.declared_events context scopes

/-- What is declared, without its kind. -/
def Declaration.place (d : Declaration) : String × Bool :=
  (d.name, d.isLocal)

lemma Stmt.isEmpty_scopes (context : Context) (scopes : List Scope) (stated : Stmt) :
    (stated.resolve context scopes).2.isEmpty = scopes.isEmpty := by
  cases stated with
  | expression | print | block | ret => rfl
  | varDecl name _ => exact Scope.isEmpty_introduce name
  | functionDecl decl | classDecl decl => exact Scope.isEmpty_introduce decl.name
  | ifElse condition thenBranch elseBranch =>
    have hthen := Stmt.isEmpty_scopes context scopes thenBranch
    cases elseBranch with
    | none => exact hthen
    | some elseBranch => exact (Stmt.isEmpty_scopes context _ elseBranch).trans hthen
  | whileLoop condition body => exact Stmt.isEmpty_scopes context scopes body

mutual

/-- Resolution comes to the declarations of a program in their order. -/
lemma Stmt.declared_events (context : Context) (scopes : List Scope) (stated : Stmt) :
    Event.declared (stated.events context scopes) =
      (stated.declarations (!scopes.isEmpty)).map Declaration.place := by
  cases stated with
  | expression value | print _ value => exact value.declared_events context scopes
  | varDecl name initial =>
    exact congrArg (_ :: ·) (Expr.declared_eventsOption context _ initial)
  | functionDecl decl =>
    exact congrArg (_ :: ·) (FunctionDecl.declared_events _ _ decl)
  | classDecl decl =>
    obtain ⟨name, superclass, methods⟩ := decl
    cases superclass with
    | none => exact congrArg (_ :: ·) (FunctionDecl.declared_eventsMethods _ _ methods)
    | some parent => exact congrArg (_ :: ·) (FunctionDecl.declared_eventsMethods _ _ methods)
  | block body => exact Stmt.declared_eventsAll context (∅ :: scopes) body
  | ifElse condition thenBranch elseBranch =>
    have hthen := Stmt.declared_events context scopes thenBranch
    cases elseBranch with
    | none =>
      simp only [Stmt.events, Event.declared_append, Expr.declared_events, List.nil_append, hthen,
        Stmt.declarations]
    | some elseBranch =>
      have helse := Stmt.declared_events context (thenBranch.resolve context scopes).2 elseBranch
      rw [Stmt.isEmpty_scopes] at helse
      simp only [Stmt.events, Event.declared_append, Expr.declared_events, List.nil_append, hthen,
        helse, Stmt.declarations, List.map_append]
  | whileLoop condition body =>
    have hbody := Stmt.declared_events context scopes body
    simp only [Stmt.events, Event.declared_append, Expr.declared_events, List.nil_append, hbody,
      Stmt.declarations]
  | ret keyword value => exact Expr.declared_eventsOption context scopes value

lemma Stmt.declared_eventsAll (context : Context) (scopes : List Scope) (body : List Stmt) :
    Event.declared (Stmt.eventsAll context scopes body) =
      (Stmt.declarationsAll (!scopes.isEmpty) body).map Declaration.place := by
  cases body with
  | nil => rfl
  | cons stated rest =>
    have hrest := Stmt.declared_eventsAll context (stated.resolve context scopes).2 rest
    rw [Stmt.isEmpty_scopes] at hrest
    simp only [Stmt.eventsAll, Event.declared_append, Stmt.declared_events context scopes stated,
      hrest, Stmt.declarationsAll, List.map_append]

lemma FunctionDecl.declared_events (context : Context) (scopes : List Scope) (decl : FunctionDecl) :
    Event.declared (decl.events context scopes) = decl.declarations.map Declaration.place := by
  obtain ⟨name, params, body⟩ := decl
  have hbody := Stmt.declared_eventsAll context (Scope.introduceAll params (∅ :: scopes)).2 body
  rw [Scope.isEmpty_introduceAll] at hbody
  simp only [FunctionDecl.events, Event.declared_append, Event.declared_introductions, hbody,
    FunctionDecl.declarations, List.map_append, List.map_map]
  rfl

lemma FunctionDecl.declared_eventsMethods (context : Context) (scopes : List Scope)
    (methods : List FunctionDecl) :
    Event.declared (FunctionDecl.eventsMethods context scopes methods) =
      (FunctionDecl.declarationsAll methods).map Declaration.place := by
  cases methods with
  | nil => rfl
  | cons method rest =>
    simp only [FunctionDecl.eventsMethods, Event.declared_append,
      FunctionDecl.declared_events _ _ method, FunctionDecl.declared_eventsMethods _ _ rest,
      FunctionDecl.declarationsAll, List.map_append]

end

lemma Program.declared_events (program : Program) :
    Event.declared (Program.events program) =
      (Program.declarations program).map Declaration.place :=
  Stmt.declared_eventsAll ⟨.none, .none⟩ [] program

/-- The identity of a use of a name, and the name. -/
def Event.use? : Event → Option (Nat × String)
  | visit v => v.node.use?
  | _ => none

def Program.uses (program : Program) : List (Nat × String) :=
  (Program.events program).filterMap Event.use?

namespace Program

variable {program : Program}

lemma mem_uses {v : Visit} (hv : .visit v ∈ Program.events program) {i : Nat} {name : String}
    (hu : v.node.use? = some (i, name)) : (i, name) ∈ Program.uses program :=
  List.mem_filterMap.mpr ⟨_, hv, hu⟩

lemma mem_declarations {decl : Name} {scopes : List Scope}
    (hv : .declare decl scopes ∈ Program.events program) :
    ∃ d ∈ Program.declarations program, d.name = decl.text ∧ d.isLocal = !scopes.isEmpty := by
  have hmem : (decl.text, !scopes.isEmpty) ∈ Event.declared (Program.events program) :=
    Event.mem_declared.mpr ⟨decl, scopes, hv, rfl, rfl⟩
  rw [Program.declared_events] at hmem
  obtain ⟨d, hd, hplace⟩ := List.mem_map.mp hmem
  exact ⟨d, hd, (Prod.mk.inj hplace).1, (Prod.mk.inj hplace).2⟩

end Program

end Lox
