import Lox.Proofs.Identity.Distinct
import Lox.Proofs.Scope.Places
import Lox.Proofs.Watch.Places

/-! Resolution reports each breach of a static rule, once, and nothing else. -/

namespace Lox

open Findings

namespace Scope

lemma introduceAll_append (names more : List Name) (scopes : List Scope) :
    introduceAll (names ++ more) scopes =
      ((introduceAll names scopes).1 ++ (introduceAll more (introduceAll names scopes).2).1,
        (introduceAll more (introduceAll names scopes).2).2) := by
  induction names generalizing scopes with
  | nil => rfl
  | cons name names ih => simp only [List.cons_append, introduceAll, ih, append_assoc]

lemma introduceAll_one (name : Name) (scopes : List Scope) :
    introduceAll [name] scopes = introduce name scopes := by
  simp only [introduceAll, append_empty]

lemma violations_introduceAll_top (names : List Name) :
    (introduceAll names []).1.violations = [] := by
  induction names with
  | nil => rfl
  | cons name names ih => exact ih

/-- Of names that are declared in a scope those are reported that come again, there or in the scope. -/
lemma violations_introduceAll (names : List Name) {before : List String} {scope : Scope}
    (h : ∀ name, scope.contains name = true ↔ name ∈ before) (outer : List Scope) :
    (introduceAll names (scope :: outer)).1.violations =
      (Name.repeated before names).map (Violation.mk .alreadyDeclared) := by
  induction names generalizing before scope with
  | nil => rfl
  | cons name names ih =>
    have hnext (other : String) :
        ((scope.insert name.text .declared).insert name.text .defined).contains other = true ↔
          other ∈ name.text :: before := by
      simp only [Bindings.contains_insert, Bool.or_eq_true, beq_iff_eq, h, List.mem_cons]
      tauto
    have hrest := ih hnext
    change (violationIf (scope.contains name.text) .alreadyDeclared name).violations ++ _ = _
    by_cases hname : name.text ∈ before
    · rw [Name.repeated, if_pos hname, violationIf, if_pos ((h _).mpr hname)]
      exact congrArg (_ :: ·) hrest
    · rw [Name.repeated, if_neg hname, violationIf, if_neg fun hc => hname ((h _).mp hc)]
      exact hrest

lemma violations_introduceAll_empty (names : List Name) (outer : List Scope) :
    (introduceAll names (∅ :: outer)).1.violations =
      (Name.repeated [] names).map (Violation.mk .alreadyDeclared) :=
  violations_introduceAll names (by simp [Bindings.contains]) outer

end Scope

/-- What an enclosure makes of what is directly in it. -/
def Enclosure.kind : Enclosure → EnclosingFunction
  | function _ => .function
  | method decl => if decl.isInitializer then .initializer else .method
  | block | type _ | initial _ => .none

/-- The context in which resolution comes to what has the enclosures around it. -/
def Context.inside (around : List Enclosure) : Context where
  function := (around.find? Enclosure.isFunction).elim .none Enclosure.kind
  owner := (around.findSome? Enclosure.type?).elim .none fun decl =>
    if decl.superclass.isNone then .withoutSuperclass else .withSuperclass

/-- The scopes in which resolution comes to a statement: none at top level, and no name is being
defined. -/
inductive Scope.Around : List Enclosure → List Scope → Prop
  | top : Around [] []
  | inside {enclosure around scope outer} : enclosure.isScope = true →
      Scope.Settled (scope :: outer) → Around (enclosure :: around) (scope :: outer)

/-- The name that is being defined in the innermost scope is the one in the initial value of which the
place is. -/
def Scope.Defines (around : List Enclosure) (scopes : List Scope) : Prop :=
  ∀ (value : Expr) (name : String), Scope.isBeingDefined name scopes =
    (⟨.expr value, around⟩ : Place).initialized?.any (·.text = name)

section Around

variable {around : List Enclosure} {scopes : List Scope}

lemma Scope.Around.settled (h : Scope.Around around scopes) : Scope.Settled scopes := by
  cases h with
  | top => simp [Scope.Settled]
  | inside _ hsettled => exact hsettled

lemma Scope.Around.introduceAll (h : Scope.Around around scopes) (names : List Name) :
    Scope.Around around (Scope.introduceAll names scopes).2 := by
  induction names generalizing scopes with
  | nil => exact h
  | cons name names ih =>
    refine ih ?_
    have hsettled := h.settled.introduce name
    cases h with
    | top => exact .top
    | inside hscope _ => exact .inside hscope hsettled

lemma Scope.Around.block {enclosure : Enclosure} (he : enclosure.isScope = true)
    (h : Scope.Settled scopes) : Scope.Around (enclosure :: around) (∅ :: scopes) :=
  .inside he (Scope.settled_empty h)

lemma Scope.Around.defines (h : Scope.Around around scopes) : Scope.Defines around scopes := by
  intro value name
  cases h with
  | top => rfl
  | @inside enclosure around scope outer hscope hsettled =>
    have hnot : Scope.isBeingDefined name (scope :: outer) = false := by
      simpa [Scope.isBeingDefined] using (List.forall_mem_cons.mp hsettled).1 name
    rw [hnot]
    cases enclosure <;> first | rfl | simp [Enclosure.isScope] at hscope

lemma Scope.Around.defines_initial (h : Scope.Around around scopes) (own : Name) :
    Scope.Defines (.initial own :: around) (Scope.declare own scopes).2 := by
  intro value name
  cases h with
  | top => rfl
  | @inside enclosure around scope outer hscope hsettled =>
    have hother := (List.forall_mem_cons.mp hsettled).1 name
    by_cases hname : name = own.text
    · simp [Scope.isBeingDefined, Scope.declare, Place.initialized?, hscope, hname]
    · simp [Scope.isBeingDefined, Scope.declare, Place.initialized?, hscope, hname, hother,
        Ne.symm hname]

end Around

namespace Place

variable {around : List Enclosure} {scopes : List Scope}

lemma violations_bound (scopes : List Scope) (i : Nat) (name : String) :
    (bound scopes i name).violations = [] := by
  unfold bound
  split <;> rfl

lemma breaches_ret (keyword : Name) (value : Option Expr) :
    (⟨.stmt (.ret keyword value), around⟩ : Place).breaches =
      (violationIf ((Context.inside around).function = .none) .returnFromTopLevel keyword ++
        violationIf (value.isSome && (Context.inside around).function = .initializer)
          .returnFromInitializer keyword).violations := by
  cases hf : around.find? Enclosure.isFunction with
  | none =>
    cases value <;>
      simp [breaches, Violation.Cause.all, breaks, function?, Context.inside, hf, violationIf,
        violation] <;> rfl
  | some enclosure =>
    have hfunction := List.find?_some hf
    cases enclosure with
    | block | type | initial => simp [Enclosure.isFunction] at hfunction
    | function decl =>
      cases value <;>
        simp [breaches, Violation.Cause.all, breaks, function?, Context.inside, hf, violationIf,
          Enclosure.kind, Enclosure.isInitializer] <;> rfl
    | method decl =>
      cases value <;> cases hinit : decl.isInitializer <;>
        simp [breaches, Violation.Cause.all, breaks, function?, Context.inside, hf, violationIf,
          violation, Enclosure.kind, Enclosure.isInitializer, hinit] <;> rfl

lemma breaches_this (around : List Enclosure) (keyword : Reference) (scopes : List Scope) :
    (⟨.expr (.this keyword), around⟩ : Place).breaches =
      ((Expr.this keyword).resolve (Context.inside around) scopes).violations := by
  cases ht : around.findSome? Enclosure.type? with
  | none =>
    simp [breaches, Violation.Cause.all, breaks, type?, Context.inside, ht, Expr.resolve, violation]
  | some decl =>
    cases hs : decl.superclass <;>
      simp [breaches, Violation.Cause.all, breaks, type?, Context.inside, ht, Expr.resolve, hs,
        violations_bound]

lemma breaches_super (around : List Enclosure) (keyword : Reference) (method : Name)
    (scopes : List Scope) :
    (⟨.expr (.super keyword method), around⟩ : Place).breaches =
      ((Expr.super keyword method).resolve (Context.inside around) scopes).violations := by
  cases ht : around.findSome? Enclosure.type? with
  | none =>
    simp [breaches, Violation.Cause.all, breaks, type?, Context.inside, ht, Expr.resolve,
      violationIf, violation, violations_bound]
    rfl
  | some decl =>
    cases hs : decl.superclass <;>
      simp [breaches, Violation.Cause.all, breaks, type?, Context.inside, ht, Expr.resolve, hs,
        violationIf, violation, violations_bound] <;> rfl

lemma breaches_block (body : List Stmt) :
    (⟨.stmt (.block body), around⟩ : Place).breaches =
      (Name.repeated [] (Stmt.declaresAll body)).map (Violation.mk .alreadyDeclared) := by
  simp [breaches, Violation.Cause.all, breaks]

lemma breaches_function (decl : FunctionDecl) :
    (⟨.function decl, around⟩ : Place).breaches =
      (Name.repeated [] (decl.params ++ Stmt.declaresAll decl.body)).map
        (Violation.mk .alreadyDeclared) := by
  simp [breaches, Violation.Cause.all, breaks]

lemma breaches_class (name : Name) (superclass : Reference) (methods : List FunctionDecl) :
    (⟨.stmt (.classDecl ⟨name, some superclass, methods⟩), around⟩ : Place).breaches =
      (violationIf (superclass.name.text == name.text) .inheritsFromItself
        superclass.name).violations := by
  by_cases hname : superclass.name.text = name.text <;>
    simp [breaches, Violation.Cause.all, breaks, violationIf, violation, hname]
  rfl

lemma breaches_read (h : Scope.Defines around scopes) (target : Reference) :
    (⟨.expr (.read target), around⟩ : Place).breaches = (target.resolveRead scopes).violations := by
  have hdefines := h (.read target) target.name.text
  simp only [Reference.resolveRead, violations_append, violations_bound, List.append_nil,
    hdefines, violationIf]
  simp only [breaches, Violation.Cause.all, breaks, List.flatMap_cons, List.flatMap_nil, List.map_nil,
    List.nil_append, List.append_nil]
  split <;> rfl

end Place

section Counting

variable {around : List Enclosure} {scopes : List Scope} (v : Violation)

lemma count_nodes_append (nodes more : List Expr) :
    (((nodes ++ more).map fun node => (⟨.expr node, around⟩ : Place)).flatMap
        Place.breaches).count v =
      ((nodes.map fun node => (⟨.expr node, around⟩ : Place)).flatMap Place.breaches).count v +
        ((more.map fun node => (⟨.expr node, around⟩ : Place)).flatMap Place.breaches).count v := by
  rw [List.map_append, List.flatMap_append, List.count_append]

mutual

lemma Expr.count_resolve (h : Scope.Defines around scopes) (value : Expr) :
    (value.resolve (Context.inside around) scopes).violations.count v =
      ((value.places around).flatMap Place.breaches).count v := by
  cases value with
  | literal => rfl
  | read target =>
    have hread := Place.breaches_read h target
    simp [Expr.places, Expr.nodes, Expr.resolve, hread]
  | this keyword =>
    have hthis := Place.breaches_this around keyword scopes
    simp [Expr.places, Expr.nodes, hthis]
  | super keyword method =>
    have hsuper := Place.breaches_super around keyword method scopes
    simp [Expr.places, Expr.nodes, hsuper]
  | grouping inner | unary _ _ inner | get inner _ => exact Expr.count_resolve h inner
  | assign target inner =>
    have hinner := Expr.count_resolve h inner
    simp only [Expr.resolve, violations_append, Place.violations_bound, List.append_nil]
    exact hinner
  | binary _ _ left right | logical _ _ left right =>
    have hl := Expr.count_resolve h left
    have hr := Expr.count_resolve h right
    simp only [Expr.resolve, violations_append, List.count_append, hl, hr]
    exact (count_nodes_append v left.nodes right.nodes).symm
  | set object _ value =>
    have hv := Expr.count_resolve h value
    have ho := Expr.count_resolve h object
    simp only [Expr.resolve, violations_append, List.count_append, hv, ho]
    rw [Nat.add_comm]
    exact (count_nodes_append v object.nodes value.nodes).symm
  | call callee arguments line =>
    have hc := Expr.count_resolve h callee
    have ha := Expr.count_resolveAll h arguments
    simp only [Expr.resolve, violations_append, List.count_append, hc, ha]
    exact (count_nodes_append v callee.nodes (Expr.nodesAll arguments)).symm

lemma Expr.count_resolveAll (h : Scope.Defines around scopes) (values : List Expr) :
    (Expr.resolveAll (Context.inside around) scopes values).violations.count v =
      (((Expr.nodesAll values).map fun node => (⟨.expr node, around⟩ : Place)).flatMap
        Place.breaches).count v := by
  cases values with
  | nil => rfl
  | cons value rest =>
    have hv := Expr.count_resolve h value
    have hr := Expr.count_resolveAll h rest
    simp only [Expr.resolveAll, violations_append, List.count_append, hv, hr]
    exact (count_nodes_append v value.nodes (Expr.nodesAll rest)).symm

end

lemma Expr.count_resolveOption (h : Scope.Defines around scopes) (value : Option Expr) :
    (Expr.resolveOption (Context.inside around) scopes value).violations.count v =
      ((Expr.placesOption around value).flatMap Place.breaches).count v := by
  cases value with
  | none => rfl
  | some value => exact value.count_resolve v h

end Counting

mutual

/-- After a statement its declarations are in the scope, and that is all that has changed. -/
lemma Stmt.scopes_resolve (context : Context) (scopes : List Scope) (stated : Stmt) :
    (stated.resolve context scopes).2 = (Scope.introduceAll stated.declares scopes).2 := by
  cases stated with
  | expression | print | varDecl | functionDecl | classDecl | block | ret => rfl
  | ifElse condition thenBranch elseBranch =>
    have hthen := Stmt.scopes_resolve context scopes thenBranch
    cases elseBranch with
    | none => exact hthen
    | some elseBranch =>
      have helse := Stmt.scopes_resolve context (thenBranch.resolve context scopes).2 elseBranch
      rw [hthen] at helse
      simp only [Stmt.resolve, Stmt.declares, Scope.introduceAll_append, hthen, helse]
  | whileLoop condition body => exact Stmt.scopes_resolve context scopes body

lemma Stmt.scopes_resolveAll (context : Context) (scopes : List Scope) (body : List Stmt) :
    (Stmt.resolveAll context scopes body).2 =
      (Scope.introduceAll (Stmt.declaresAll body) scopes).2 := by
  cases body with
  | nil => rfl
  | cons stated rest =>
    have hstated := Stmt.scopes_resolve context scopes stated
    have hrest := Stmt.scopes_resolveAll context (stated.resolve context scopes).2 rest
    rw [hstated] at hrest
    simp only [Stmt.resolveAll, Stmt.declaresAll, Scope.introduceAll_append, hstated, hrest]

end

section Counting

variable (v : Violation)

mutual

/-- What a statement declares is reported where it stands, all else in it at its own place. -/
lemma Stmt.count_resolve {around : List Enclosure} {scopes : List Scope}
    (h : Scope.Around around scopes) (stated : Stmt) :
    (stated.resolve (Context.inside around) scopes).1.violations.count v =
      (Scope.introduceAll stated.declares scopes).1.violations.count v +
        ((stated.places around).flatMap Place.breaches).count v := by
  cases stated with
  | expression value | print _ value =>
    exact (value.count_resolve v h.defines).trans (Nat.zero_add _).symm
  | varDecl name initial =>
    have hinitial := Expr.count_resolveOption v (h.defines_initial name) initial
    simp only [Stmt.declares, Scope.introduceAll_one, Stmt.resolve, violations_append,
      List.count_append]
    exact congrArg (_ + ·) hinitial
  | functionDecl decl =>
    have hinner := h.introduceAll [decl.name]
    rw [Scope.introduceAll_one] at hinner
    have hdecl := FunctionDecl.count_resolve around .function (fun _ => rfl) hinner.settled decl
    simp only [Stmt.declares, Scope.introduceAll_one, Stmt.resolve, violations_append,
      List.count_append]
    exact congrArg (_ + ·) hdecl
  | classDecl decl =>
    have hinner := h.introduceAll [decl.name]
    rw [Scope.introduceAll_one] at hinner
    have hdecl := ClassDecl.count_resolve hinner decl
    simp only [Stmt.declares, Scope.introduceAll_one, Stmt.resolve, violations_append,
      List.count_append]
    exact congrArg (_ + ·) hdecl
  | block body =>
    have hbody := Stmt.count_resolveAll (.block rfl h.settled : Scope.Around (.block :: around) _) body
    rw [Scope.violations_introduceAll_empty] at hbody
    simp only [Stmt.resolve, Stmt.declares, Stmt.places, List.flatMap_cons, List.count_append,
      Place.breaches_block]
    exact hbody.trans (Nat.zero_add _).symm
  | ifElse condition thenBranch elseBranch =>
    have hc := condition.count_resolve v h.defines
    have ht := Stmt.count_resolve h thenBranch
    cases elseBranch with
    | none =>
      simp only [Stmt.resolve, Stmt.declares, Stmt.places, violations_append, List.flatMap_cons,
        List.flatMap_append, List.count_append, hc, ht]
      change _ = _ + (0 + _)
      omega
    | some elseBranch =>
      have he := Stmt.count_resolve (h.introduceAll thenBranch.declares) elseBranch
      simp only [Stmt.resolve, Stmt.declares, Stmt.places, Scope.introduceAll_append,
        Stmt.scopes_resolve, violations_append, List.flatMap_cons, List.flatMap_append,
        List.count_append, hc, ht, he]
      change _ = _ + (0 + _)
      omega
  | whileLoop condition body =>
    have hc := condition.count_resolve v h.defines
    have hb := Stmt.count_resolve h body
    simp only [Stmt.resolve, Stmt.declares, Stmt.places, violations_append, List.flatMap_cons,
      List.flatMap_append, List.count_append, hc, hb]
    change _ = _ + (0 + _)
    omega
  | ret keyword value =>
    have hv := Expr.count_resolveOption v h.defines value
    simp only [Stmt.resolve, Stmt.resolveReturn, Stmt.declares, Stmt.places, violations_append,
      List.flatMap_cons, List.count_append, Place.breaches_ret, hv]
    exact (Nat.zero_add _).symm

lemma Stmt.count_resolveAll {around : List Enclosure} {scopes : List Scope}
    (h : Scope.Around around scopes) (body : List Stmt) :
    (Stmt.resolveAll (Context.inside around) scopes body).1.violations.count v =
      (Scope.introduceAll (Stmt.declaresAll body) scopes).1.violations.count v +
        ((Stmt.placesAll around body).flatMap Place.breaches).count v := by
  cases body with
  | nil => rfl
  | cons stated rest =>
    have hstated := Stmt.count_resolve h stated
    have hrest := Stmt.count_resolveAll (h.introduceAll stated.declares) rest
    simp only [Stmt.resolveAll, Stmt.declaresAll, Stmt.placesAll, Scope.introduceAll_append,
      violations_append, List.flatMap_append, List.count_append, Stmt.scopes_resolve, hstated, hrest]
    omega

lemma FunctionDecl.count_resolve (around : List Enclosure) {scopes : List Scope}
    (enclosure : FunctionDecl → Enclosure) (he : ∀ decl, (enclosure decl).isScope = true)
    (h : Scope.Settled scopes) (decl : FunctionDecl) :
    (decl.resolve (Context.inside (enclosure decl :: around)) scopes).violations.count v =
      ((decl.places enclosure around).flatMap Place.breaches).count v := by
  obtain ⟨name, params, body⟩ := decl
  have houter : Scope.Around (enclosure ⟨name, params, body⟩ :: around) (∅ :: scopes) :=
    .block (he _) h
  have hbody := Stmt.count_resolveAll (houter.introduceAll params) body
  have hnames := Scope.violations_introduceAll_empty (params ++ Stmt.declaresAll body) scopes
  rw [Scope.introduceAll_append] at hnames
  simp only [FunctionDecl.resolve, FunctionDecl.places, violations_append, List.flatMap_cons,
    List.count_append, hbody, Place.breaches_function, ← hnames]
  omega

lemma ClassDecl.count_resolve {around : List Enclosure} {scopes : List Scope}
    (h : Scope.Around around scopes) (decl : ClassDecl) :
    (decl.resolve (Context.inside around) scopes).violations.count v =
      ((⟨.stmt (.classDecl decl), around⟩ :: decl.places around).flatMap Place.breaches).count v := by
  obtain ⟨name, superclass, methods⟩ := decl
  cases superclass with
  | none =>
    have hmethods := FunctionDecl.count_resolveMethods (.type ⟨name, none, methods⟩ :: around)
      (Scope.settled_single Scope.thisName h.settled) methods
    exact hmethods
  | some superclass =>
    have hmethods := FunctionDecl.count_resolveMethods
      (.type ⟨name, some superclass, methods⟩ :: around)
      (Scope.settled_single Scope.thisName (Scope.settled_single Scope.superName h.settled)) methods
    have hread := Place.breaches_read h.defines superclass
    simp only [ClassDecl.resolve, ClassDecl.places, violations_append, List.flatMap_cons,
      List.flatMap_append, List.flatMap_nil, List.append_nil, List.count_append,
      Place.breaches_class, Option.elim_some, hread, ← hmethods]
    exact Nat.add_assoc ..

lemma FunctionDecl.count_resolveMethods (around : List Enclosure) {scopes : List Scope}
    (h : Scope.Settled scopes) (methods : List FunctionDecl) :
    (FunctionDecl.resolveMethods (Context.inside around) scopes methods).violations.count v =
      ((FunctionDecl.placesAll around methods).flatMap Place.breaches).count v := by
  cases methods with
  | nil => rfl
  | cons decl rest =>
    have hdecl := FunctionDecl.count_resolve around .method (fun _ => rfl) h decl
    have hrest := FunctionDecl.count_resolveMethods around h rest
    simp only [FunctionDecl.resolveMethods, FunctionDecl.placesAll, violations_append,
      List.flatMap_append, List.count_append, hrest]
    exact congrArg (· + _) hdecl

end

end Counting

namespace Program

lemma perm_breaches (program : Program) : program.findings.violations.Perm program.breaches := by
  refine List.perm_iff_count.mpr fun v => ?_
  have hcount := Stmt.count_resolveAll v .top program
  rw [Scope.violations_introduceAll_top] at hcount
  exact hcount.trans (Nat.zero_add _)

/-- What resolution reports of a program is what breaks a static rule at a place in it, as often as it
does. A program in which nothing does is accepted, and no other. -/
theorem resolve_reports (program : Program) :
    (∀ violations, Program.resolve program = .error violations →
        violations.Perm program.breaches) ∧
      ((∃ distances, Program.resolve program = .ok distances) ↔ program.breaches = []) := by
  have hperm := program.perm_breaches
  have hresolve : Program.resolve program =
      if program.findings.violations = [] then .ok program.findings.distances
      else .error program.findings.violations := by
    unfold Program.resolve findings
    split <;> simp_all
  rw [hresolve]
  split
  · rename_i hnone
    rw [hnone] at hperm
    exact ⟨by simp, iff_of_true ⟨_, rfl⟩ hperm.nil_eq.symm⟩
  · rename_i hsome
    refine ⟨fun violations h => ?_, iff_of_false (by simp) fun hnone => ?_⟩
    · rw [← Except.error.inj h]
      exact hperm
    · rw [hnone] at hperm
      exact hsome hperm.eq_nil

end Program

end Lox
