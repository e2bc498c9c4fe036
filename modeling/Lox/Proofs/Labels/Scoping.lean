import Lox.Proofs.Labels.Keys
import Lox.Proofs.Labels.Tree
import Lox.Proofs.Scope.Declarations
import Lox.Proofs.Scope.Entries
import Lox.Proofs.Scope.Invariant

/-! Resolution of trees with other lines and other names. If no two names of one scope come to be the
same, resolution comes to the same expressions and declarations as before, under the other names. -/

namespace Lox

namespace Labels

variable (l : Labels)

def scope (scope : Scope) : Scope :=
  Bindings.mapKeys l.name scope

def KeepsTitles (ds : List Declaration) : Prop :=
  ∀ d ∈ ds, d.isVariable = false → l.name d.name = d.name

variable {l}

lemma KeepsTitles.left {ds es : List Declaration} (h : l.KeepsTitles (ds ++ es)) : l.KeepsTitles ds :=
  fun d hd => h d (List.mem_append_left _ hd)

lemma KeepsTitles.right {ds es : List Declaration} (h : l.KeepsTitles (ds ++ es)) :
    l.KeepsTitles es :=
  fun d hd => h d (List.mem_append_right _ hd)

lemma KeepsTitles.tail {d : Declaration} {ds : List Declaration} (h : l.KeepsTitles (d :: ds)) :
    l.KeepsTitles ds :=
  fun e he => h e (List.mem_cons_of_mem _ he)

lemma KeepsTitles.named {name : Name} {isLocal : Bool} {ds : List Declaration}
    (h : l.KeepsTitles (⟨name.text, isLocal, false⟩ :: ds)) : l.title name = l.named name := by
  have hname : l.name name.text = name.text := h _ (List.mem_cons_self ..) rfl
  rw [Labels.title, Labels.named, hname]

end Labels

def Visit.relabel (l : Labels) (v : Visit) : Visit :=
  ⟨v.node.relabel l, v.context, v.scopes.map l.scope⟩

def Event.relabel (l : Labels) : Event → Event
  | visit v => visit (v.relabel l)
  | declare name scopes => declare (l.named name) (scopes.map l.scope)
  | ret context keyword value => ret context (l.title keyword) (value.map (Expr.relabel l))
  | inherit name superclass => inherit (l.named name) (l.reference superclass)

/-- Names stay different from each other, if only because the events with the other names break no
rule: names that come to be the same would be declared twice in one scope. -/
def Labels.Parts (l : Labels) (es : List Event) : Prop :=
  Function.Injective l.name ∨ ∀ event ∈ es, event.findings.violations = []

namespace Labels.Parts

variable {l : Labels} {es fs : List Event}

lemma left (h : l.Parts (es ++ fs)) : l.Parts es :=
  h.imp_right fun h event he => h event (List.mem_append_left _ he)

lemma right (h : l.Parts (es ++ fs)) : l.Parts fs :=
  h.imp_right fun h event he => h event (List.mem_append_right _ he)

lemma tail {event : Event} (h : l.Parts (event :: es)) : l.Parts es :=
  h.imp_right fun h event he => h event (List.mem_cons_of_mem _ he)

lemma apart {name : Name} {scope : Scope} {outer : List Scope}
    (h : l.Parts (.declare (l.named name) (l.scope scope :: outer) :: es)) :
    scope.Apart l.name name.text := by
  rcases h with h | h
  · exact Bindings.apart_of_injective h
  · intro other hother hsame
    have hnew := Findings.violationIf_eq.mp (h _ (List.mem_cons_self ..))
    have hcontains : (l.scope scope).contains (l.name name.text) = true :=
      Bindings.contains_mapKeys.mpr ⟨other, hother, hsame⟩
    exact absurd hcontains (Bool.not_eq_true _ ▸ hnew)

end Labels.Parts

namespace Scope

variable {l : Labels} {name : Name} {scopes : List Scope} {es : List Event}

lemma declare_relabel (h : l.Parts (.declare (l.named name) (scopes.map l.scope) :: es)) :
    (declare (l.named name) (scopes.map l.scope)).2 = (declare name scopes).2.map l.scope := by
  cases scopes with
  | nil => rfl
  | cons scope outer =>
    have hinsert := Bindings.mapKeys_insert h.apart NameState.declared
    exact congrArg (· :: outer.map l.scope) hinsert.symm

lemma define_relabel (h : l.Parts (.declare (l.named name) (scopes.map l.scope) :: es)) :
    define (l.named name) (declare (l.named name) (scopes.map l.scope)).2 =
      (define name (declare name scopes).2).map l.scope := by
  rw [declare_relabel h]
  cases scopes with
  | nil => rfl
  | cons scope outer =>
    have hapart : Bindings.Apart l.name (scope.insert name.text .declared) name.text := by
      intro other hother hsame
      rw [Bindings.contains_insert, Bool.or_eq_true, beq_iff_eq] at hother
      rcases hother with hother | hother
      · exact hother
      · exact h.apart other hother hsame
    have hinsert := Bindings.mapKeys_insert hapart NameState.defined
    exact congrArg (· :: outer.map l.scope) hinsert.symm

lemma introductions_relabel {names : List Name}
    (h : l.Parts (introductions (names.map l.named) (scopes.map l.scope))) :
    introductions (names.map l.named) (scopes.map l.scope) =
        (introductions names scopes).map (Event.relabel l) ∧
      (introduceAll (names.map l.named) (scopes.map l.scope)).2 =
        (introduceAll names scopes).2.map l.scope := by
  induction names generalizing scopes with
  | nil => exact ⟨rfl, rfl⟩
  | cons name names ih =>
    have hdefine : (introduce (l.named name) (scopes.map l.scope)).2 =
        (introduce name scopes).2.map l.scope := define_relabel h
    have hrest := h.tail
    rw [hdefine] at hrest
    obtain ⟨hevents, hafter⟩ := ih hrest
    constructor
    · simp only [List.map_cons, introductions, hdefine, hevents]
      rfl
    · simp only [List.map_cons, introduceAll, hdefine, hafter]

end Scope

lemma Labels.scope_single {l : Labels} {name : String} (h : l.name name = name) :
    l.scope (Scope.single name) = Scope.single name := by
  change Bindings.mk [(l.name name, NameState.defined)] = Bindings.mk [(name, NameState.defined)]
  rw [h]

section Expressions

variable (l : Labels) (context : Context) (scopes : List Scope)

mutual

lemma Expr.events_relabel (value : Expr) :
    (value.relabel l).events context (scopes.map l.scope) =
      (value.events context scopes).map (Event.relabel l) := by
  cases value with
  | literal | read | this | super => rfl
  | grouping inner | unary _ _ inner | get inner _ | assign _ inner =>
    simp only [Expr.relabel, Expr.events, Expr.events_relabel inner, List.map_append]
    rfl
  | binary _ _ left right | logical _ _ left right | set left _ right =>
    simp only [Expr.relabel, Expr.events, Expr.events_relabel left, Expr.events_relabel right,
      List.map_append]
    rfl
  | call callee arguments line =>
    simp only [Expr.relabel, Expr.events, Expr.events_relabel callee,
      Expr.eventsAll_relabelAll arguments, List.map_append]
    rfl

lemma Expr.eventsAll_relabelAll (values : List Expr) :
    Expr.eventsAll context (scopes.map l.scope) (Expr.relabelAll l values) =
      (Expr.eventsAll context scopes values).map (Event.relabel l) := by
  cases values with
  | nil => rfl
  | cons value rest =>
    simp only [Expr.relabelAll, Expr.eventsAll, Expr.events_relabel value,
      Expr.eventsAll_relabelAll rest, List.map_append]

end

lemma Expr.eventsOption_relabel (value : Option Expr) :
    Expr.eventsOption context (scopes.map l.scope) (value.map (Expr.relabel l)) =
      (Expr.eventsOption context scopes value).map (Event.relabel l) := by
  cases value with
  | none => rfl
  | some value => exact value.events_relabel l context scopes

end Expressions

variable {l : Labels}

mutual

lemma Stmt.events_relabel (hplain : l.Plain) (context : Context) (scopes : List Scope)
    (stated : Stmt) {isLocal : Bool} (ht : l.KeepsTitles (stated.declarations isLocal))
    (hp : l.Parts ((stated.relabel l).events context (scopes.map l.scope))) :
    (stated.relabel l).events context (scopes.map l.scope) =
        (stated.events context scopes).map (Event.relabel l) ∧
      ((stated.relabel l).resolve context (scopes.map l.scope)).2 =
        (stated.resolve context scopes).2.map l.scope := by
  cases stated with
  | expression value | print _ value => exact ⟨value.events_relabel l context scopes, rfl⟩
  | varDecl name initial =>
    refine ⟨?_, Scope.define_relabel hp⟩
    have hinitial := Expr.eventsOption_relabel l context (Scope.declare name scopes).2 initial
    simp only [Stmt.relabel, Stmt.events, Scope.declare_relabel hp, hinitial, List.map_cons]
    rfl
  | functionDecl decl =>
    simp only [Stmt.relabel, Stmt.events, Stmt.resolve, FunctionDecl.name_relabel, ht.named] at hp ⊢
    have hintroduce : (Scope.introduce (l.named decl.name) (scopes.map l.scope)).2 =
        (Scope.introduce decl.name scopes).2.map l.scope := Scope.define_relabel hp
    have hbody := hp.tail
    rw [hintroduce] at hbody ⊢
    rw [FunctionDecl.events_relabel hplain _ _ decl ht.tail hbody]
    exact ⟨rfl, rfl⟩
  | classDecl decl =>
    simp only [Stmt.relabel, Stmt.events, Stmt.resolve, ClassDecl.name_relabel, ht.named] at hp ⊢
    have hintroduce : (Scope.introduce (l.named decl.name) (scopes.map l.scope)).2 =
        (Scope.introduce decl.name scopes).2.map l.scope := Scope.define_relabel hp
    have hbody := hp.tail
    rw [hintroduce] at hbody ⊢
    rw [ClassDecl.events_relabel hplain _ _ decl ht.named ht.tail hbody]
    exact ⟨rfl, rfl⟩
  | block body => exact ⟨(Stmt.eventsAll_relabelAll hplain context (∅ :: scopes) body ht hp).1, rfl⟩
  | ifElse condition thenBranch elseBranch =>
    cases elseBranch with
    | none =>
      obtain ⟨hevents, hafter⟩ := Stmt.events_relabel hplain context scopes thenBranch ht hp.right
      refine ⟨?_, hafter⟩
      simp only [Stmt.relabel, Stmt.events, Expr.events_relabel, hevents, List.map_append]
    | some elseBranch =>
      obtain ⟨hevents, hafter⟩ :=
        Stmt.events_relabel hplain context scopes thenBranch ht.left hp.right.left
      have helse := hp.right.right
      rw [hafter] at helse
      obtain ⟨hevents', hafter'⟩ := Stmt.events_relabel hplain context _ elseBranch ht.right helse
      constructor
      · simp only [Stmt.relabel, Stmt.events, Expr.events_relabel, hevents, hafter, hevents',
          List.map_append]
      · simp only [Stmt.relabel, Stmt.resolve, hafter, hafter']
  | whileLoop condition body =>
    obtain ⟨hevents, hafter⟩ := Stmt.events_relabel hplain context scopes body ht hp.right
    refine ⟨?_, hafter⟩
    simp only [Stmt.relabel, Stmt.events, Expr.events_relabel, hevents, List.map_append]
  | ret keyword value =>
    refine ⟨?_, rfl⟩
    simp only [Stmt.relabel, Stmt.events, Expr.eventsOption_relabel, List.map_cons]
    rfl

lemma Stmt.eventsAll_relabelAll (hplain : l.Plain) (context : Context) (scopes : List Scope)
    (body : List Stmt) {isLocal : Bool} (ht : l.KeepsTitles (Stmt.declarationsAll isLocal body))
    (hp : l.Parts (Stmt.eventsAll context (scopes.map l.scope) (Stmt.relabelAll l body))) :
    Stmt.eventsAll context (scopes.map l.scope) (Stmt.relabelAll l body) =
        (Stmt.eventsAll context scopes body).map (Event.relabel l) ∧
      (Stmt.resolveAll context (scopes.map l.scope) (Stmt.relabelAll l body)).2 =
        (Stmt.resolveAll context scopes body).2.map l.scope := by
  cases body with
  | nil => exact ⟨rfl, rfl⟩
  | cons stated rest =>
    obtain ⟨hevents, hafter⟩ := Stmt.events_relabel hplain context scopes stated ht.left hp.left
    have hrest := hp.right
    rw [hafter] at hrest
    obtain ⟨hevents', hafter'⟩ := Stmt.eventsAll_relabelAll hplain context _ rest ht.right hrest
    constructor
    · simp only [Stmt.relabelAll, Stmt.eventsAll, hevents, hafter, hevents', List.map_append]
    · simp only [Stmt.relabelAll, Stmt.resolveAll, hafter, hafter']

lemma FunctionDecl.events_relabel (hplain : l.Plain) (context : Context) (scopes : List Scope)
    (decl : FunctionDecl) (ht : l.KeepsTitles decl.declarations)
    (hp : l.Parts ((decl.relabel l).events context (scopes.map l.scope))) :
    (decl.relabel l).events context (scopes.map l.scope) =
      (decl.events context scopes).map (Event.relabel l) := by
  obtain ⟨name, params, body⟩ := decl
  have hfirst : l.Parts (Scope.introductions (params.map l.named) (List.map l.scope (∅ :: scopes))) :=
    hp.left
  obtain ⟨hparams, hinside⟩ := Scope.introductions_relabel hfirst
  have hbody := hp.right
  change l.Parts (Stmt.eventsAll context
    (Scope.introduceAll (params.map l.named) (List.map l.scope (∅ :: scopes))).2
      (Stmt.relabelAll l body)) at hbody
  rw [hinside] at hbody
  have hevents := (Stmt.eventsAll_relabelAll hplain context _ body ht.right hbody).1
  change Scope.introductions (params.map l.named) (List.map l.scope (∅ :: scopes)) ++
    Stmt.eventsAll context
      (Scope.introduceAll (params.map l.named) (List.map l.scope (∅ :: scopes))).2
        (Stmt.relabelAll l body) = _
  rw [hinside, hparams, hevents, FunctionDecl.events, List.map_append]

lemma FunctionDecl.eventsMethods_relabelAll (hplain : l.Plain) (context : Context)
    (scopes : List Scope) (methods : List FunctionDecl)
    (ht : l.KeepsTitles (FunctionDecl.declarationsAll methods))
    (hp : l.Parts (FunctionDecl.eventsMethods context (scopes.map l.scope)
      (FunctionDecl.relabelAll l methods))) :
    FunctionDecl.eventsMethods context (scopes.map l.scope) (FunctionDecl.relabelAll l methods) =
      (FunctionDecl.eventsMethods context scopes methods).map (Event.relabel l) := by
  cases methods with
  | nil => rfl
  | cons method rest =>
    simp only [FunctionDecl.relabelAll, FunctionDecl.eventsMethods,
      FunctionDecl.isInitializer_relabel] at hp ⊢
    rw [FunctionDecl.events_relabel hplain _ _ method ht.left hp.left,
      FunctionDecl.eventsMethods_relabelAll hplain _ _ rest ht.right hp.right, List.map_append]

lemma ClassDecl.events_relabel (hplain : l.Plain) (context : Context) (scopes : List Scope)
    (decl : ClassDecl) (hn : l.title decl.name = l.named decl.name)
    (ht : l.KeepsTitles decl.declarations)
    (hp : l.Parts ((decl.relabel l).events context (scopes.map l.scope))) :
    (decl.relabel l).events context (scopes.map l.scope) =
      (decl.events context scopes).map (Event.relabel l) := by
  have hthis := Labels.scope_single ((hplain.this Scope.thisName).mpr rfl)
  have hsuper := Labels.scope_single ((hplain.super Scope.superName).mpr rfl)
  obtain ⟨name, superclass, methods⟩ := decl
  cases superclass with
  | none =>
    have hmethods := FunctionDecl.eventsMethods_relabelAll hplain
      { context with owner := .withoutSuperclass } (Scope.single Scope.thisName :: scopes) methods ht
    rw [List.map_cons, hthis] at hmethods
    exact hmethods hp
  | some parent =>
    have hmethods := FunctionDecl.eventsMethods_relabelAll hplain
      { context with owner := .withSuperclass }
      (Scope.single Scope.thisName :: Scope.single Scope.superName :: scopes) methods ht
    rw [List.map_cons, List.map_cons, hthis, hsuper] at hmethods
    simp only [ClassDecl.relabel, Option.map_some, ClassDecl.events, hmethods hp.tail.tail,
      List.map_cons, hn]
    rfl

end

/-- No two names of one scope come to be the same. -/
def Labels.Distinct (l : Labels) (scopes : List Scope) : Prop :=
  ∀ scope ∈ scopes, ∀ name, scope.contains name = true → scope.Apart l.name name

def Labels.Separates (l : Labels) (name : Name) (scopes : List Scope) : Prop :=
  ∀ scope ∈ scopes.head?, scope.Apart l.name name.text

namespace Labels.Distinct

lemma insert {scope : Scope} {name : String}
    (h : ∀ other, scope.contains other = true → scope.Apart l.name other)
    (hname : scope.Apart l.name name) (state : NameState) :
    ∀ other, (scope.insert name state).contains other = true →
      (scope.insert name state).Apart l.name other := by
  intro other hother third hthird hsame
  rw [Bindings.contains_insert, Bool.or_eq_true, beq_iff_eq] at hother hthird
  rcases hother with rfl | hother
  · rcases hthird with rfl | hthird
    · rfl
    · exact hname third hthird hsame
  · rcases hthird with rfl | hthird
    · exact (hname other hother hsame.symm).symm
    · exact h other hother third hthird hsame

lemma declare {name : Name} {scopes : List Scope} (h : l.Distinct scopes)
    (hname : l.Separates name scopes) : l.Distinct (Scope.declare name scopes).2 := by
  cases scopes with
  | nil => exact h
  | cons scope outer =>
    obtain ⟨hscope, houter⟩ := List.forall_mem_cons.mp h
    exact List.forall_mem_cons.mpr ⟨insert hscope (hname scope rfl) _, houter⟩

lemma introduce {name : Name} {scopes : List Scope} (h : l.Distinct scopes)
    (hname : l.Separates name scopes) : l.Distinct (Scope.introduce name scopes).2 := by
  have hdeclare := h.declare hname
  cases scopes with
  | nil => exact h
  | cons scope outer =>
    obtain ⟨hscope, houter⟩ := List.forall_mem_cons.mp hdeclare
    have hcontains : (scope.insert name.text .declared).contains name.text = true := by
      simp [Bindings.contains_insert]
    exact List.forall_mem_cons.mpr ⟨insert hscope (hscope name.text hcontains) _, houter⟩

end Labels.Distinct

lemma Labels.distinct_lasting (l : Labels) : Scope.Lasting l.Separates l.Distinct where
  block scopes h := List.forall_mem_cons.mpr ⟨by simp [Bindings.contains], h⟩
  single name scopes h := by
    refine List.forall_mem_cons.mpr ⟨fun other hother third hthird _ => ?_, h⟩
    rw [Scope.single, Bindings.contains_insert] at hother hthird
    simp only [Bindings.contains, Bindings.get?_empty, Option.isSome_none, Bool.or_false,
      beq_iff_eq] at hother hthird
    rw [hother, hthird]
  declare name scopes h hname := h.declare hname
  introduce name scopes h hname := h.introduce hname

lemma Program.events_relabel (hplain : l.Plain) (program : Program)
    (ht : l.KeepsTitles (Program.declarations program))
    (hp : l.Parts (Program.events (Stmt.relabelAll l program))) :
    Program.events (Stmt.relabelAll l program) =
      (Program.events program).map (Event.relabel l) :=
  (Stmt.eventsAll_relabelAll hplain ⟨.none, .none⟩ [] program ht hp).1

/-- A name is found under its other name where it was found before. -/
def Visit.FoundAlike (l : Labels) (v : Visit) : Prop :=
  ∀ i name, v.node.use? = some (i, name) →
    (v.scopes.map l.scope).findIdx? (·.contains (l.name name)) =
      v.scopes.findIdx? (·.contains name)

lemma Scope.isBeingDefined_relabel {scopes : List Scope} {name : String} (hd : l.Distinct scopes)
    (h : Scope.isBeingDefined (l.name name) (scopes.map l.scope) = false) :
    Scope.isBeingDefined name scopes = false := by
  cases scopes with
  | nil => rfl
  | cons scope outer =>
    simp only [List.map_cons, isBeingDefined, beq_eq_false_iff_ne] at h ⊢
    intro hdeclared
    have hcontains : scope.contains name = true := by simp [Bindings.contains, hdeclared]
    have happart := hd scope (List.mem_cons_self ..) name hcontains
    rw [Labels.scope, Bindings.get?_mapKeys happart] at h
    exact h hdeclared

section Findings

open Findings

lemma Findings.bound_congr {scopes scopes' : List Scope} {name name' : String} (i : Nat)
    (h : scopes'.findIdx? (·.contains name') = scopes.findIdx? (·.contains name)) :
    bound scopes' i name' = bound scopes i name := by
  simp only [bound, h]

lemma Visit.findings_relabel (hplain : l.Plain) {v : Visit} (hd : l.Distinct v.scopes)
    (hf : v.FoundAlike l) (hclean : (v.relabel l).findings.violations = []) :
    v.findings.violations = [] ∧ v.findings.distances = (v.relabel l).findings.distances := by
  obtain ⟨node, context, scopes⟩ := v
  cases node with
  | read target =>
    have hbound := Findings.bound_congr target.id (hf _ _ rfl)
    simp only [Visit.relabel, Expr.relabel, Visit.findings, Reference.resolveRead,
      violations_append, List.append_eq_nil_iff, Findings.violationIf_eq, distances_append,
      distances_violationIf, List.nil_append] at hclean ⊢
    change bound (scopes.map l.scope) target.id (l.name target.name.text) = _ at hbound
    refine ⟨⟨Scope.isBeingDefined_relabel hd hclean.1, ?_⟩, ?_⟩
    · rw [← hbound]
      exact hclean.2
    · rw [← hbound]
      rfl
  | assign target value =>
    have hbound := Findings.bound_congr target.id (hf _ _ rfl)
    change (bound scopes _ _).violations = [] ∧ (bound scopes _ _).distances = (bound _ _ _).distances
    rw [← hbound]
    exact ⟨hclean, rfl⟩
  | this keyword =>
    have hbound := Findings.bound_congr keyword.id (hf _ _ rfl)
    rw [(hplain.this _).mpr rfl] at hbound
    simp only [Visit.relabel, Expr.relabel, Visit.findings, Expr.resolve] at hclean ⊢
    by_cases howner : context.owner = .none
    · simp [howner, violation] at hclean
    · simp only [howner, if_false] at hclean ⊢
      rw [← hbound]
      exact ⟨hclean, rfl⟩
  | super keyword method =>
    have hbound := Findings.bound_congr keyword.id (hf _ _ rfl)
    rw [(hplain.super _).mpr rfl] at hbound
    simp only [Visit.relabel, Expr.relabel, Visit.findings, Expr.resolve, violations_append,
      List.append_eq_nil_iff, Findings.violationIf_eq, distances_append, distances_violationIf,
      List.nil_append] at hclean ⊢
    rw [← hbound]
    exact ⟨hclean, rfl⟩
  | literal | grouping | unary | binary | logical | call | get | set => exact ⟨rfl, rfl⟩

lemma Event.findings_relabel (hplain : l.Plain) {event : Event}
    (hd : ∀ scopes ∈ event.scopes?, l.Distinct scopes) (hf : ∀ v, event = .visit v → v.FoundAlike l)
    (hclean : (event.relabel l).findings.violations = []) :
    event.findings.violations = [] ∧
      event.findings.distances = (event.relabel l).findings.distances := by
  cases event with
  | visit v => exact Visit.findings_relabel hplain (hd _ rfl) (hf v rfl) hclean
  | declare name scopes =>
    cases scopes with
    | nil => exact ⟨rfl, rfl⟩
    | cons scope outer =>
      have hnew : (l.scope scope).contains (l.name name.text) = false :=
        Findings.violationIf_eq.mp hclean
      refine ⟨Findings.violationIf_eq.mpr ?_, ?_⟩
      · by_contra hcontains
        rw [Bool.not_eq_false] at hcontains
        have hother : (l.scope scope).contains (l.name name.text) = true :=
          Bindings.contains_mapKeys.mpr ⟨name.text, hcontains, rfl⟩
        exact absurd hother (Bool.not_eq_true _ ▸ hnew)
      · exact (distances_violationIf ..).trans (distances_violationIf ..).symm
  | ret context keyword value =>
    simp only [Event.relabel, Event.findings, violations_append, List.append_eq_nil_iff,
      Findings.violationIf_eq, Option.isSome_map, distances_append, distances_violationIf] at hclean ⊢
    exact ⟨hclean, trivial⟩
  | inherit name superclass =>
    simp only [Event.relabel, Event.findings, Findings.violationIf_eq, beq_eq_false_iff_ne,
      distances_violationIf, and_true] at hclean ⊢
    intro heq
    exact hclean (congrArg l.name heq)

lemma Findings.distances_ofEvents_congr {es : List Event} {f : Event → Event}
    (h : ∀ event ∈ es, event.findings.distances = (f event).findings.distances) :
    (ofEvents es).distances = (ofEvents (es.map f)).distances := by
  induction es with
  | nil => rfl
  | cons event rest ih =>
    obtain ⟨hevent, hrest⟩ := List.forall_mem_cons.mp h
    simp only [List.map_cons, ofEvents, distances_append, hevent, ih hrest]

end Findings

/-- If resolution accepts a program under other names, it accepts the program itself, with the same
distances, as long as each name is found where its other name is. -/
lemma Program.resolve_of_relabel (hplain : l.Plain) {program : Program} {distances : List Distance}
    (ht : l.KeepsTitles (Program.declarations program))
    (h : Program.resolve (Stmt.relabelAll l program) = .ok distances)
    (hf : ∀ v, .visit v ∈ Program.events program → v.FoundAlike l) :
    Program.resolve program = .ok distances := by
  obtain ⟨hclean, rfl⟩ := Program.resolve_eq_ok_iff.mp h
  have hevents := Program.events_relabel hplain program ht (.inr hclean)
  rw [hevents] at hclean
  have hseparates : Scope.Lasting.Allows l.Separates (Program.events program) := by
    intro name scopes he scope hscope
    have hnew := hclean _ (List.mem_map_of_mem he)
    have hparts : l.Parts [(Event.declare name scopes).relabel l] := .inr (by simpa using hnew)
    obtain ⟨outer, rfl⟩ := List.head?_eq_some_iff.mp hscope
    exact hparts.apart
  have hdistinct := l.distinct_lasting.program program (by simp [Labels.Distinct]) hseparates
  have hfindings (event : Event) (he : event ∈ Program.events program) :=
    Event.findings_relabel hplain (hdistinct event he)
      (fun v hv => hf v (hv ▸ he)) (hclean _ (List.mem_map_of_mem he))
  refine Program.resolve_eq_ok_iff.mpr ⟨fun event he => (hfindings event he).1, ?_⟩
  rw [hevents]
  exact (Findings.distances_ofEvents_congr fun event he => (hfindings event he).2).symm

end Lox
