import Lox.Proofs.Scope.Breaches
import Lox.Proofs.Scope.Text
import Mathlib.Data.List.Induction

/-! The binding table of a program is the one that its text tells: at each mark resolution has a scope for
each one that is open there, with the names that are declared in it up to the mark. -/

namespace Lox

open Mark

namespace Scope

/-- The scopes are those that are open behind a stretch of text, each with the names declared in it. -/
structure Told (before : List Mark) (scopes : List Scope) : Prop where
  depth : unclosed? before = some scopes.length
  declared : ∀ name distance, DeclaredAt before name distance ↔
    ∃ scope, scopes[distance]? = some scope ∧ scope.contains name = true

/-- At each use of a name in the marks resolution comes to it, with the scopes that are open there. -/
def Located (before marks : List Mark) (es : List Event) : Prop :=
  ∀ front node behind, marks = front ++ .uses node :: behind →
    ∃ v, .visit v ∈ es ∧ v.node = node ∧ Told (before ++ front) v.scopes

/-- Resolution goes along the marks, and comes to the scopes that are open behind them. -/
structure Along (before marks : List Mark) (es : List Event) (after : List Scope) : Prop where
  located : Located before marks es
  after : Told (before ++ marks) after

section Counting

variable {before : List Mark} {n distance : Nat}

lemma enclosedAt_iff (h : unclosed? before = some n) : EnclosedAt before distance ↔ distance < n := by
  induction before using List.reverseRecOn generalizing n distance with
  | nil =>
    obtain rfl := Option.some.inj h
    simp [EnclosedAt]
  | append_singleton before mark ih =>
    rw [unclosed?_append_one] at h
    obtain ⟨k, hk, hleaves⟩ := Option.bind_eq_some_iff.mp h
    rw [enclosedAt_append_one]
    simp only [ih hk]
    cases mark with
    | opens =>
      obtain rfl := Option.some.inj hleaves
      simp only [leaves, Option.some.injEq, true_and]
      constructor
      · rintro (⟨j, hj, rfl⟩ | rfl) <;> omega
      · intro hlt
        rcases distance with _ | j
        · exact .inr rfl
        · exact .inl ⟨j, by omega, rfl⟩
    | closes =>
      simp only [leaves, reduceCtorEq, false_and, or_false] at hleaves ⊢
      split at hleaves
      · simp at hleaves
      · obtain rfl := Option.some.inj hleaves
        constructor
        · rintro ⟨j, hj, hd⟩
          split at hd
          · simp at hd
          · obtain rfl := Option.some.inj hd
            omega
        · intro hlt
          exact ⟨distance + 1, by omega, by simp⟩
    | declares name | uses node =>
      obtain rfl := Option.some.inj hleaves
      simp [leaves]

end Counting

namespace Told

variable {before : List Mark} {scope : Scope} {scopes : List Scope} {name : Name}

lemma top : Told [] [] where
  depth := rfl
  declared name distance := by simp [DeclaredAt]

lemma uses (h : Told before scopes) (node : Expr) : Told (before ++ [.uses node]) scopes where
  depth := by
    rw [unclosed?_append_one, h.depth]
    rfl
  declared other distance := by
    rw [declaredAt_append_one, ← h.declared]
    simp [leaves]

lemma opens (h : Told before scopes) : Told (before ++ [.opens]) (∅ :: scopes) where
  depth := by
    rw [unclosed?_append_one, h.depth]
    rfl
  declared name distance := by
    rw [declaredAt_append_one]
    simp only [h.declared, leaves, Option.some.injEq, reduceCtorEq, false_and, or_false]
    constructor
    · rintro ⟨k, hk, rfl⟩
      exact hk
    · rintro ⟨scope, hscope, hname⟩
      rcases distance with _ | k
      · obtain rfl : ∅ = scope := by simpa using hscope
        simp [Bindings.contains] at hname
      · exact ⟨k, ⟨scope, hscope, hname⟩, rfl⟩

lemma closes (h : Told before (scope :: scopes)) : Told (before ++ [.closes]) scopes where
  depth := by
    rw [unclosed?_append_one, h.depth]
    rfl
  declared name distance := by
    rw [declaredAt_append_one]
    simp only [h.declared, leaves, reduceCtorEq, false_and, or_false]
    constructor
    · rintro ⟨k, hk, hd⟩
      split at hd
      · simp at hd
      · obtain ⟨k, rfl⟩ := Nat.exists_eq_succ_of_ne_zero ‹_›
        obtain rfl := Option.some.inj hd
        exact hk
    · intro hd
      exact ⟨distance + 1, hd, by simp⟩

lemma declares (h : Told before (scope :: scopes)) {name : String} {inner : Scope}
    (hinner : ∀ other, inner.contains other = true ↔ other = name ∨ scope.contains other = true) :
    Told (before ++ [.declares name]) (inner :: scopes) where
  depth := by
    rw [unclosed?_append_one, h.depth]
    rfl
  declared other distance := by
    have henclosed : EnclosedAt before 0 := (enclosedAt_iff h.depth).mpr (Nat.succ_pos _)
    rw [declaredAt_append_one]
    simp only [h.declared, leaves, Option.some.injEq, exists_eq_right, Mark.declares.injEq, henclosed,
      and_true]
    rcases distance with _ | k
    · simp [hinner, @eq_comm _ name other, or_comm]
    · simp

lemma declares_top (h : Told before []) (name : String) : Told (before ++ [.declares name]) [] where
  depth := by
    rw [unclosed?_append_one, h.depth]
    rfl
  declared other distance := by
    have henclosed : ¬ EnclosedAt before 0 := by simp [enclosedAt_iff h.depth]
    rw [declaredAt_append_one]
    simp [h.declared, henclosed]

lemma declare (h : Told before scopes) (name : Name) :
    Told (before ++ [.declares name.text]) (Scope.declare name scopes).2 := by
  cases scopes with
  | nil => exact h.declares_top name.text
  | cons scope outer =>
    exact h.declares fun other => by simp [Bindings.contains_insert]

lemma introduce (h : Told before scopes) (name : Name) :
    Told (before ++ [.declares name.text]) (Scope.introduce name scopes).2 := by
  cases scopes with
  | nil => exact h.declares_top name.text
  | cons scope outer =>
    exact h.declares fun other => by simp [Bindings.contains_insert]

/-- Whether its declaration is over does not matter to what the text tells of a name. -/
lemma define (h : Told before (Scope.declare name scopes).2) :
    Told before (Scope.introduce name scopes).2 := by
  cases scopes with
  | nil => exact h
  | cons scope outer =>
    refine ⟨h.depth, fun other distance => ?_⟩
    rw [h.declared]
    rcases distance with _ | k
    · simp [Scope.declare, Scope.introduce, Scope.define, Bindings.contains_insert]
    · rfl

lemma introduceAll (h : Told before scopes) (names : List Name) :
    Told (before ++ names.map fun name => .declares name.text) (Scope.introduceAll names scopes).2 := by
  induction names generalizing before scopes with
  | nil => simpa [Scope.introduceAll] using h
  | cons name names ih => simpa [Scope.introduceAll] using ih (h.introduce name)

/-- A name is found in the scopes as far outward as the text tells. -/
lemma findIdx?_iff (h : Told before scopes) {name : String} {distance : Nat} :
    scopes.findIdx? (·.contains name) = some distance ↔ BoundAt before name distance := by
  simp only [BoundAt, h.declared]
  rw [List.findIdx?_eq_some_iff_getElem]
  constructor
  · rintro ⟨hlt, hcontains, hnot⟩
    refine ⟨⟨_, List.getElem?_eq_getElem hlt, hcontains⟩, ?_⟩
    rintro nearer hnearer ⟨scope, hscope, hname⟩
    obtain ⟨hn, rfl⟩ := List.getElem?_eq_some_iff.mp hscope
    exact hnot nearer hnearer hname
  · rintro ⟨⟨scope, hscope, hname⟩, hnot⟩
    obtain ⟨hlt, rfl⟩ := List.getElem?_eq_some_iff.mp hscope
    refine ⟨hlt, hname, fun nearer hnearer hcontains => ?_⟩
    exact hnot nearer hnearer ⟨_, List.getElem?_eq_getElem (Nat.lt_trans hnearer hlt), hcontains⟩

end Told

section Rules

variable {before marks more : List Mark} {es fs : List Event} {scopes after : List Scope}

lemma Located.mono (h : Located before marks es) (hsub : es ⊆ fs) : Located before marks fs := by
  intro front node behind heq
  obtain ⟨v, hv, hu, htold⟩ := h front node behind heq
  exact ⟨v, hsub hv, hu, htold⟩

lemma Located.append (h : Located before marks es) (h' : Located (before ++ marks) more es) :
    Located before (marks ++ more) es := by
  intro front node behind heq
  rcases List.append_eq_append_iff.mp heq with ⟨between, rfl, hmore⟩ | ⟨between, rfl, hmarks⟩
  · obtain ⟨v, hv, hu, htold⟩ := h' between node behind hmore
    exact ⟨v, hv, hu, by rwa [List.append_assoc] at htold⟩
  · cases between with
    | nil =>
      obtain ⟨v, hv, hu, htold⟩ := h' [] node behind (by simpa using hmarks.symm)
      exact ⟨v, hv, hu, by simpa using htold⟩
    | cons mark between =>
      obtain ⟨rfl, -⟩ := List.cons.inj hmarks
      exact h front node between rfl

lemma located_of_forall (h : ∀ mark ∈ marks, ∀ node, mark ≠ .uses node) :
    Located before marks es := by
  rintro front node behind rfl
  exact absurd rfl (h (.uses node) (by simp) node)

lemma Along.append (h : Along before marks es scopes)
    (h' : Along (before ++ marks) more fs after) : Along before (marks ++ more) (es ++ fs) after where
  located := (h.located.mono (List.subset_append_left ..)).append
    (h'.located.mono (List.subset_append_right ..))
  after := by
    rw [← List.append_assoc]
    exact h'.after

lemma Along.mono (h : Along before marks es after) (hsub : es ⊆ fs) : Along before marks fs after :=
  ⟨h.located.mono hsub, h.after⟩

lemma Along.told (h : Along before marks es scopes) (h' : Told (before ++ marks) after) :
    Along before marks es after :=
  ⟨h.located, h'⟩

lemma along_cons {mark : Mark} (hm : ∀ node, mark ≠ .uses node)
    (h : Along (before ++ [mark]) marks es after) : Along before (mark :: marks) es after where
  located := (located_of_forall (by simpa using hm) : Located before [mark] es).append h.located
  after := by simpa using h.after

lemma along_nil (h : Told before scopes) : Along before [] es scopes :=
  ⟨located_of_forall (by simp), by simpa using h⟩

lemma along_use {v : Visit} (h : Told before v.scopes) :
    Along before [.uses v.node] [.visit v] v.scopes where
  located := by
    intro front node behind heq
    obtain ⟨rfl, hmark⟩ : front = [] ∧ Mark.uses v.node = .uses node := by
      cases front with
      | nil => exact ⟨rfl, (List.cons.inj heq).1⟩
      | cons mark front => simp at heq
    exact ⟨v, by simp, Mark.uses.inj hmark, by simpa using h⟩
  after := h.uses v.node

lemma along_scope {scope : Scope} (h : Along (before ++ [.opens]) marks es (scope :: scopes)) :
    Along before (.opens :: (marks ++ [.closes])) es scopes := by
  have hcloses : Along (before ++ [.opens] ++ marks) [.closes] [] scopes :=
    ⟨located_of_forall (by simp), h.after.closes⟩
  have hall := h.append hcloses
  rw [List.append_nil] at hall
  exact along_cons (by simp) hall

lemma along_single (h : Told before scopes) (name : String)
    (hmarks : Told (before ++ [.opens] ++ [.declares name]) (single name :: scopes) →
      Along (before ++ [.opens] ++ [.declares name]) marks es (single name :: scopes)) :
    Along before (.opens :: .declares name :: (marks ++ [.closes])) es scopes := by
  have htold : Told (before ++ [.opens] ++ [.declares name]) (single name :: scopes) := by
    refine h.opens.declares fun other => ?_
    rw [contains_single, beq_iff_eq]
    simp [Bindings.contains]
  have hinside : Along (before ++ [.opens]) (.declares name :: marks) es (single name :: scopes) :=
    along_cons (by simp) (hmarks htold)
  exact along_scope hinside

end Rules

end Scope

section Resolution

open Scope

mutual

lemma Expr.along {before : List Mark} {scopes : List Scope} (h : Told before scopes)
    (context : Context) (value : Expr) :
    Along before value.marks (value.events context scopes) scopes := by
  cases value with
  | literal value => exact along_nil h |>.mono (List.nil_subset _)
  | read target | this target => exact along_use (v := ⟨_, context, scopes⟩) h
  | super keyword method => exact along_use (v := ⟨_, context, scopes⟩) h
  | grouping inner | unary _ _ inner | get inner _ =>
    exact (Expr.along h context inner).mono (List.subset_append_left ..)
  | binary _ _ left right | logical _ _ left right =>
    have hleft := Expr.along h context left
    exact (hleft.append (Expr.along hleft.after context right)).mono (by simp [Expr.events])
  | set object _ value =>
    have hobject := Expr.along h context object
    refine (hobject.append (Expr.along hobject.after context value)).mono ?_
    simp [Expr.events]
  | assign target value =>
    have huse := along_use (v := ⟨.assign target value, context, scopes⟩) h
    refine (huse.append (Expr.along huse.after context value)).mono ?_
    simp [Expr.events]
  | call callee arguments line =>
    have hcallee := Expr.along h context callee
    refine (hcallee.append (Expr.alongAll hcallee.after context arguments)).mono ?_
    simp [Expr.events]

lemma Expr.alongAll {before : List Mark} {scopes : List Scope} (h : Told before scopes)
    (context : Context) (values : List Expr) :
    Along before (Expr.marksAll values) (Expr.eventsAll context scopes values) scopes := by
  cases values with
  | nil => exact along_nil h
  | cons value rest =>
    have hvalue := Expr.along h context value
    exact hvalue.append (Expr.alongAll hvalue.after context rest)

end

lemma Expr.alongOption {before : List Mark} {scopes : List Scope} (h : Told before scopes)
    (context : Context) (value : Option Expr) :
    Along before (Expr.marksOption value) (Expr.eventsOption context scopes value) scopes := by
  cases value with
  | none => exact along_nil h
  | some value => exact value.along h context

mutual

lemma Stmt.along {before : List Mark} {scopes : List Scope} (h : Told before scopes)
    (context : Context) (stated : Stmt) :
    Along before stated.marks (stated.events context scopes) (stated.resolve context scopes).2 := by
  cases stated with
  | expression value | print _ value => exact value.along h context
  | ret keyword value =>
    exact (Expr.alongOption h context value).mono (List.subset_cons_self ..)
  | varDecl name initial =>
    have hinitial := Expr.alongOption (h.declare name) context initial
    exact (along_cons (by simp) (hinitial.told hinitial.after.define)).mono
      (List.subset_cons_self ..)
  | functionDecl decl =>
    have hdecl := FunctionDecl.along (h.introduce decl.name) { context with function := .function }
      decl
    exact (along_cons (by simp) hdecl).mono (List.subset_cons_self ..)
  | classDecl decl =>
    have hdecl := ClassDecl.along (h.introduce decl.name) context decl
    exact (along_cons (by simp) hdecl).mono (List.subset_cons_self ..)
  | block body =>
    have hbody := Stmt.alongAll h.opens context body
    obtain ⟨inner, hinner, -⟩ := Scope.introduceAll_cons (Stmt.declaresAll body) ∅ scopes
    rw [Stmt.scopes_resolveAll, hinner] at hbody
    exact along_scope hbody
  | ifElse condition thenBranch elseBranch =>
    have hcondition := condition.along h context
    have hthen := Stmt.along hcondition.after context thenBranch
    cases elseBranch with
    | none => exact hcondition.append hthen
    | some elseBranch =>
      exact hcondition.append (hthen.append (Stmt.along hthen.after context elseBranch))
  | whileLoop condition body =>
    have hcondition := condition.along h context
    exact hcondition.append (Stmt.along hcondition.after context body)

lemma Stmt.alongAll {before : List Mark} {scopes : List Scope} (h : Told before scopes)
    (context : Context) (body : List Stmt) :
    Along before (Stmt.marksAll body) (Stmt.eventsAll context scopes body)
      (Stmt.resolveAll context scopes body).2 := by
  cases body with
  | nil => exact along_nil h
  | cons stated rest =>
    have hstated := Stmt.along h context stated
    exact hstated.append (Stmt.alongAll hstated.after context rest)

lemma FunctionDecl.along {before : List Mark} {scopes : List Scope} (h : Told before scopes)
    (context : Context) (decl : FunctionDecl) :
    Along before decl.marks (decl.events context scopes) scopes := by
  obtain ⟨name, params, body⟩ := decl
  have hparams : Along (before ++ [.opens]) (params.map fun param => .declares param.text)
      (Scope.introductions params (∅ :: scopes)) (Scope.introduceAll params (∅ :: scopes)).2 :=
    ⟨located_of_forall (by simp), h.opens.introduceAll params⟩
  have hbody := hparams.append (Stmt.alongAll hparams.after context body)
  obtain ⟨inner, hinner, -⟩ :=
    Scope.introduceAll_cons (params ++ Stmt.declaresAll body) ∅ scopes
  have hscopes : (Stmt.resolveAll context (Scope.introduceAll params (∅ :: scopes)).2 body).2 =
      inner :: scopes := by
    rw [Stmt.scopes_resolveAll, ← hinner, Scope.introduceAll_append]
  rw [hscopes] at hbody
  have hall := along_scope hbody
  rw [List.append_assoc] at hall
  exact hall

lemma ClassDecl.along {before : List Mark} {scopes : List Scope} (h : Told before scopes)
    (context : Context) (decl : ClassDecl) :
    Along before decl.marks (decl.events context scopes) scopes := by
  obtain ⟨name, superclass, methods⟩ := decl
  cases superclass with
  | none =>
    exact along_single h Scope.thisName fun htold => FunctionDecl.alongAll htold _ methods
  | some superclass =>
    have hread := along_use (v := ⟨.read superclass, context, scopes⟩) h
    have hmethods := along_single hread.after Scope.superName fun htold =>
      along_single htold Scope.thisName fun htold =>
        FunctionDecl.alongAll htold { context with owner := .withSuperclass } methods
    have hall := hread.append hmethods
    simp only [List.cons_append, List.append_assoc, List.nil_append] at hall
    exact hall.mono (List.subset_cons_self ..)

lemma FunctionDecl.alongAll {before : List Mark} {scopes : List Scope} (h : Told before scopes)
    (context : Context) (methods : List FunctionDecl) :
    Along before (FunctionDecl.marksAll methods) (FunctionDecl.eventsMethods context scopes methods)
      scopes := by
  cases methods with
  | nil => exact along_nil h
  | cons decl rest =>
    have hdecl := FunctionDecl.along h
      { context with function := if decl.isInitializer then .initializer else .method } decl
    exact hdecl.append (FunctionDecl.alongAll hdecl.after context rest)

end

end Resolution

end Lox
