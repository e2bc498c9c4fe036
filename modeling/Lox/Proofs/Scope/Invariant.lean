import Lox.Proofs.Scope.Events

/-! What is so of the scopes at every event of a resolution, if it is so at first and stays so with
each declaration. -/

namespace Lox

def Event.scopes? : Event → Option (List Scope)
  | visit v => some v.scopes
  | declare _ scopes => some scopes
  | ret .. | inherit .. => none

/-- What stays so of scopes when there are more of them, and when names are declared under a
condition. -/
structure Scope.Lasting (condition : Name → List Scope → Prop) (holds : List Scope → Prop) :
    Prop where
  block : ∀ scopes, holds scopes → holds (∅ :: scopes)
  single : ∀ name scopes, holds scopes → holds (Scope.single name :: scopes)
  declare : ∀ name scopes, holds scopes → condition name scopes → holds (Scope.declare name scopes).2
  introduce : ∀ name scopes, holds scopes → condition name scopes →
    holds (Scope.introduce name scopes).2

namespace Scope.Lasting

variable {condition : Name → List Scope → Prop} {holds : List Scope → Prop}

/-- Each declaration among the events is made under the condition. -/
def Allows (condition : Name → List Scope → Prop) (es : List Event) : Prop :=
  ∀ name scopes, .declare name scopes ∈ es → condition name scopes

def HoldsAt (holds : List Scope → Prop) (es : List Event) : Prop :=
  ∀ event ∈ es, ∀ scopes ∈ event.scopes?, holds scopes

lemma Allows.left {es fs : List Event} (h : Allows condition (es ++ fs)) : Allows condition es :=
  fun name scopes he => h name scopes (List.mem_append_left _ he)

lemma Allows.right {es fs : List Event} (h : Allows condition (es ++ fs)) : Allows condition fs :=
  fun name scopes he => h name scopes (List.mem_append_right _ he)

lemma Allows.tail {event : Event} {es : List Event} (h : Allows condition (event :: es)) :
    Allows condition es :=
  fun name scopes he => h name scopes (List.mem_cons_of_mem _ he)

lemma Allows.head {name : Name} {scopes : List Scope} {es : List Event}
    (h : Allows condition (.declare name scopes :: es)) : condition name scopes :=
  h name scopes (List.mem_cons_self ..)

lemma HoldsAt.append {es fs : List Event} (h : HoldsAt holds es) (h' : HoldsAt holds fs) :
    HoldsAt holds (es ++ fs) :=
  List.forall_mem_append.mpr ⟨h, h'⟩

lemma HoldsAt.cons {event : Event} {es : List Event} (h : ∀ scopes ∈ event.scopes?, holds scopes)
    (h' : HoldsAt holds es) : HoldsAt holds (event :: es) :=
  List.forall_mem_cons.mpr ⟨h, h'⟩

lemma holdsAt_nil : HoldsAt holds [] := by
  simp [HoldsAt]

lemma holdsAt_visit {v : Visit} (h : holds v.scopes) : HoldsAt holds [.visit v] :=
  .cons (by simpa [Event.scopes?] using h) holdsAt_nil

section Expressions

variable {context : Context} {scopes : List Scope}

mutual

lemma expr (h : holds scopes) (value : Expr) : HoldsAt holds (value.events context scopes) := by
  cases value with
  | literal | read | this | super => exact holdsAt_visit h
  | grouping inner | unary _ _ inner | get inner _ | assign _ inner =>
    exact (expr h inner).append (holdsAt_visit h)
  | binary _ _ left right | logical _ _ left right | set right _ left =>
    exact (expr h left).append ((expr h right).append (holdsAt_visit h))
  | call callee arguments line =>
    exact (expr h callee).append ((exprs h arguments).append (holdsAt_visit h))

lemma exprs (h : holds scopes) (values : List Expr) :
    HoldsAt holds (Expr.eventsAll context scopes values) := by
  cases values with
  | nil => exact holdsAt_nil
  | cons value rest => exact (expr h value).append (exprs h rest)

end

lemma option (h : holds scopes) (value : Option Expr) :
    HoldsAt holds (Expr.eventsOption context scopes value) := by
  cases value with
  | none => exact holdsAt_nil
  | some value => exact expr h value

end Expressions

lemma introductions (hl : Lasting condition holds) {names : List Name} {scopes : List Scope}
    (h : holds scopes) (ha : Allows condition (Scope.introductions names scopes)) :
    HoldsAt holds (Scope.introductions names scopes) ∧
      holds (Scope.introduceAll names scopes).2 := by
  induction names generalizing scopes with
  | nil => exact ⟨holdsAt_nil, h⟩
  | cons name names ih =>
    obtain ⟨hrest, hafter⟩ := ih (hl.introduce name scopes h ha.head) ha.tail
    exact ⟨.cons (by simpa [Event.scopes?] using h) hrest, hafter⟩

mutual

lemma stmt (hl : Lasting condition holds) (context : Context) (scopes : List Scope)
    (stated : Stmt) (h : holds scopes)
    (ha : Allows condition (stated.events context scopes)) :
    HoldsAt holds (stated.events context scopes) ∧ holds (stated.resolve context scopes).2 := by
  have hdeclare {name : Name} : ∀ given ∈ (Event.declare name scopes).scopes?, holds given := by
    simpa [Event.scopes?] using h
  cases stated with
  | expression value | print _ value => exact ⟨expr h value, h⟩
  | varDecl name initial =>
    have hinside := hl.declare name scopes h ha.head
    exact ⟨.cons hdeclare (option hinside initial), hl.introduce name scopes h ha.head⟩
  | functionDecl decl =>
    have hinside := hl.introduce decl.name scopes h ha.head
    exact ⟨.cons hdeclare (function hl _ _ decl hinside ha.tail), hinside⟩
  | classDecl decl =>
    have hinside := hl.introduce decl.name scopes h ha.head
    obtain ⟨name, superclass, methodDecls⟩ := decl
    cases superclass with
    | none =>
      exact ⟨.cons hdeclare (methods hl _ _ methodDecls (hl.single _ _ hinside) ha.tail), hinside⟩
    | some parent =>
      have hmethods := methods hl _ _ methodDecls (hl.single _ _ (hl.single _ _ hinside))
        ha.tail.tail.tail
      exact ⟨.cons hdeclare (.cons (by simp [Event.scopes?]) (.cons
        (by simpa [Event.scopes?] using hinside) hmethods)), hinside⟩
  | block body => exact ⟨(stmts hl _ _ body (hl.block scopes h) ha).1, h⟩
  | ifElse condition thenBranch elseBranch =>
    cases elseBranch with
    | none =>
      obtain ⟨hthen, hafter⟩ := stmt hl context scopes thenBranch h ha.right
      exact ⟨(expr h condition).append hthen, hafter⟩
    | some elseBranch =>
      obtain ⟨hthen, hafter⟩ := stmt hl context scopes thenBranch h ha.right.left
      obtain ⟨helse, hafter'⟩ := stmt hl context _ elseBranch hafter ha.right.right
      exact ⟨(expr h condition).append (hthen.append helse), hafter'⟩
  | whileLoop condition body =>
    obtain ⟨hbody, hafter⟩ := stmt hl context scopes body h ha.right
    exact ⟨(expr h condition).append hbody, hafter⟩
  | ret keyword value => exact ⟨.cons (by simp [Event.scopes?]) (option h value), h⟩

lemma stmts (hl : Lasting condition holds) (context : Context) (scopes : List Scope)
    (body : List Stmt) (h : holds scopes)
    (ha : Allows condition (Stmt.eventsAll context scopes body)) :
    HoldsAt holds (Stmt.eventsAll context scopes body) ∧
      holds (Stmt.resolveAll context scopes body).2 := by
  cases body with
  | nil => exact ⟨holdsAt_nil, h⟩
  | cons stated rest =>
    obtain ⟨hfirst, hafter⟩ := stmt hl context scopes stated h ha.left
    obtain ⟨hrest, hafter'⟩ := stmts hl context _ rest hafter ha.right
    exact ⟨hfirst.append hrest, hafter'⟩

lemma function (hl : Lasting condition holds) (context : Context) (scopes : List Scope)
    (decl : FunctionDecl) (h : holds scopes)
    (ha : Allows condition (decl.events context scopes)) :
    HoldsAt holds (decl.events context scopes) := by
  obtain ⟨name, params, body⟩ := decl
  obtain ⟨hparams, hinside⟩ := introductions hl (hl.block scopes h) ha.left
  exact hparams.append (stmts hl context _ body hinside ha.right).1

lemma methods (hl : Lasting condition holds) (context : Context) (scopes : List Scope)
    (decls : List FunctionDecl) (h : holds scopes)
    (ha : Allows condition (FunctionDecl.eventsMethods context scopes decls)) :
    HoldsAt holds (FunctionDecl.eventsMethods context scopes decls) := by
  cases decls with
  | nil => exact holdsAt_nil
  | cons decl rest =>
    exact (function hl _ scopes decl h ha.left).append (methods hl context scopes rest h ha.right)

end

lemma program (hl : Lasting condition holds) (program : Program) (h : holds [])
    (ha : Allows condition (Program.events program)) :
    HoldsAt holds (Program.events program) :=
  (stmts hl ⟨.none, .none⟩ [] program h ha).1

end Scope.Lasting

end Lox
