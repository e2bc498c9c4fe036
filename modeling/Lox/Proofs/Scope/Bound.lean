import Lox.Proofs.Scope.Lexical
import Lox.Proofs.Session.Source

/-! An accepted program has the binding table that its text tells: an entry for each use of a name that a
scope around it has, with the number of scopes between the two. -/

namespace Lox

open Mark

namespace Scope

/-- The scopes around a place in a class of the given kind, or in none: the nearest ones that are not
plain are those of the class. -/
inductive Housed : EnclosingClass → List Scope → Prop
  | top : Housed .none []
  | block {owner scope scopes} : Housed owner scopes → scope.HasPlainNames →
      Housed owner (scope :: scopes)
  | type {owner scopes} : Housed owner scopes →
      Housed .withoutSuperclass (single thisName :: scopes)
  | subtype {owner scopes} : Housed owner scopes →
      Housed .withSuperclass (single thisName :: single superName :: scopes)

/-- The scopes around a statement, in the innermost of which it can declare names. -/
structure Homely (owner : EnclosingClass) (scopes : List Scope) : Prop where
  housed : Housed owner scopes
  plain : ∀ scope ∈ scopes.head?, scope.HasPlainNames

/-- The expressions to which resolution comes are housed in the classes around them. -/
def Houses (es : List Event) : Prop :=
  ∀ v, .visit v ∈ es → Housed v.context.owner v.scopes

section Housing

variable {owner : EnclosingClass} {scopes : List Scope} {es fs : List Event}

/-- Where `super` can be used, it is one scope further outward than `this`. -/
lemma Housed.exists_super (h : Housed .withSuperclass scopes) : ∃ distance,
    scopes.findIdx? (·.contains superName) = some (distance + 1) ∧
      scopes.findIdx? (·.contains thisName) = some distance := by
  generalize howner : EnclosingClass.withSuperclass = owner at h
  induction h with
  | top | type => simp at howner
  | subtype =>
    refine ⟨0, ?_, ?_⟩ <;> simp [List.findIdx?_cons, contains_single, thisName, superName]
  | @block owner scope scopes _ hplain ih =>
    obtain ⟨distance, hsuper, hthis⟩ := ih howner
    have hnot {name : String} (hn : ¬ IsPlain name) : scope.contains name = false :=
      Bool.eq_false_iff.mpr fun hcontains => hn (hplain name hcontains)
    refine ⟨distance + 1, ?_, ?_⟩
    · simp [List.findIdx?_cons, hnot superName_not_plain, hsuper]
    · simp [List.findIdx?_cons, hnot thisName_not_plain, hthis]

lemma Housed.homely (h : Housed owner scopes) : Homely owner (∅ :: scopes) where
  housed := h.block hasPlainNames_empty
  plain := by
    rintro _ ⟨⟩
    exact hasPlainNames_empty

lemma Homely.insert (h : Homely owner scopes) {name : Name} (hn : IsPlain name.text) :
    Homely owner (declare name scopes).2 ∧ Homely owner (introduce name scopes).2 := by
  cases scopes with
  | nil => exact ⟨h, h⟩
  | cons scope outer =>
    have hplain : scope.HasPlainNames := h.plain scope rfl
    have houter : Housed owner outer := by
      cases h.housed with
      | block houter _ => exact houter
      | type | subtype => exact absurd hplain (single_not_plain thisName_not_plain)
    have hdeclared := hplain.insert hn .declared
    have hdefined := hdeclared.insert hn .defined
    refine ⟨⟨houter.block hdeclared, ?_⟩, ⟨houter.block hdefined, ?_⟩⟩
    · rintro _ ⟨⟩
      exact hdeclared
    · rintro _ ⟨⟩
      exact hdefined

lemma Homely.introduceAll (h : Homely owner scopes) {names : List Name}
    (hn : ∀ name ∈ names, IsPlain name.text) : Homely owner (introduceAll names scopes).2 := by
  induction names generalizing scopes with
  | nil => exact h
  | cons name names ih =>
    obtain ⟨hname, hrest⟩ := List.forall_mem_cons.mp hn
    exact ih (h.insert hname).2 hrest

lemma houses_nil : Houses [] := by
  simp [Houses]

lemma Houses.append (h : Houses es) (h' : Houses fs) : Houses (es ++ fs) := by
  intro v hv
  rcases List.mem_append.mp hv with hv | hv
  · exact h v hv
  · exact h' v hv

lemma Houses.visit {v : Visit} (h : Housed v.context.owner v.scopes) (hes : Houses es) :
    Houses (.visit v :: es) := by
  intro v' hv
  rcases List.mem_cons.mp hv with hv | hv
  · rw [Event.visit.inj hv]
    exact h
  · exact hes v' hv

lemma Houses.cons {event : Event} (h : ∀ v, event ≠ .visit v) (hes : Houses es) :
    Houses (event :: es) := by
  intro v hv
  rcases List.mem_cons.mp hv with hv | hv
  · exact absurd hv.symm (h v)
  · exact hes v hv

lemma houses_introductions (names : List Name) (scopes : List Scope) :
    Houses (introductions names scopes) := by
  induction names generalizing scopes with
  | nil => exact houses_nil
  | cons name names ih => exact (ih _).cons (by simp)

end Housing

end Scope

section Resolution

open Scope

section Expressions

variable {context : Context} {scopes : List Scope}

mutual

lemma Expr.houses (h : Housed context.owner scopes) (value : Expr) :
    Houses (value.events context scopes) := by
  cases value with
  | literal | read | this | super => exact houses_nil.visit h
  | grouping inner | unary _ _ inner | get inner _ | assign _ inner =>
    exact (Expr.houses h inner).append (houses_nil.visit h)
  | binary _ _ left right | logical _ _ left right | set right _ left =>
    exact (Expr.houses h left).append ((Expr.houses h right).append (houses_nil.visit h))
  | call callee arguments line =>
    exact (Expr.houses h callee).append ((Expr.housesAll h arguments).append (houses_nil.visit h))

lemma Expr.housesAll (h : Housed context.owner scopes) (values : List Expr) :
    Houses (Expr.eventsAll context scopes values) := by
  cases values with
  | nil => exact houses_nil
  | cons value rest => exact (Expr.houses h value).append (Expr.housesAll h rest)

end

lemma Expr.housesOption (h : Housed context.owner scopes) (value : Option Expr) :
    Houses (Expr.eventsOption context scopes value) := by
  cases value with
  | none => exact houses_nil
  | some value => exact Expr.houses h value

end Expressions

mutual

lemma Stmt.houses (context : Context) {scopes : List Scope} (h : Homely context.owner scopes)
    (stated : Stmt) (hp : stated.Proper) :
    Houses (stated.events context scopes) ∧
      Homely context.owner (stated.resolve context scopes).2 := by
  cases stated with
  | expression value | print _ value => exact ⟨Expr.houses h.housed value, h⟩
  | ret keyword value => exact ⟨(Expr.housesOption h.housed value).cons (by simp), h⟩
  | varDecl name initial =>
    obtain ⟨hdeclared, hintroduced⟩ := h.insert hp.1
    exact ⟨(Expr.housesOption hdeclared.housed initial).cons (by simp), hintroduced⟩
  | functionDecl decl =>
    obtain ⟨-, hintroduced⟩ := h.insert (FunctionDecl.proper_iff.mp hp).1
    have hdecl := FunctionDecl.houses { context with function := .function }
      hintroduced.housed decl hp
    exact ⟨hdecl.cons (by simp), hintroduced⟩
  | classDecl decl =>
    obtain ⟨-, hintroduced⟩ := h.insert (ClassDecl.proper_iff.mp hp).1
    have hdecl := ClassDecl.houses context hintroduced.housed decl hp
    exact ⟨hdecl.cons (by simp), hintroduced⟩
  | block body => exact ⟨(Stmt.housesAll context h.housed.homely body hp).1, h⟩
  | ifElse condition thenBranch elseBranch =>
    cases elseBranch with
    | none =>
      obtain ⟨hthen, hafter⟩ := Stmt.houses context h thenBranch hp.2.2
      exact ⟨(Expr.houses h.housed condition).append hthen, hafter⟩
    | some elseBranch =>
      obtain ⟨-, ⟨-, hpthen⟩, -, hpelse⟩ := hp
      obtain ⟨hthen, hbetween⟩ := Stmt.houses context h thenBranch hpthen
      obtain ⟨helse, hafter⟩ := Stmt.houses context hbetween elseBranch hpelse
      exact ⟨(Expr.houses h.housed condition).append (hthen.append helse), hafter⟩
  | whileLoop condition body =>
    obtain ⟨hbody, hafter⟩ := Stmt.houses context h body hp.2.2
    exact ⟨(Expr.houses h.housed condition).append hbody, hafter⟩

lemma Stmt.housesAll (context : Context) {scopes : List Scope} (h : Homely context.owner scopes)
    (body : List Stmt) (hp : Stmt.ProperAll body) :
    Houses (Stmt.eventsAll context scopes body) ∧
      Homely context.owner (Stmt.resolveAll context scopes body).2 := by
  cases body with
  | nil => exact ⟨houses_nil, h⟩
  | cons stated rest =>
    obtain ⟨hstated, hbetween⟩ := Stmt.houses context h stated hp.1
    obtain ⟨hrest, hafter⟩ := Stmt.housesAll context hbetween rest hp.2
    exact ⟨hstated.append hrest, hafter⟩

lemma FunctionDecl.houses (context : Context) {scopes : List Scope}
    (h : Housed context.owner scopes) (decl : FunctionDecl) (hp : decl.Proper) :
    Houses (decl.events context scopes) := by
  obtain ⟨name, params, body⟩ := decl
  obtain ⟨-, hparams, hbody⟩ := hp
  have hinside := h.homely.introduceAll hparams
  exact (houses_introductions params _).append (Stmt.housesAll context hinside body hbody).1

lemma ClassDecl.houses (context : Context) {scopes : List Scope}
    (h : Housed context.owner scopes) (decl : ClassDecl) (hp : decl.Proper) :
    Houses (decl.events context scopes) := by
  obtain ⟨name, superclass, methods⟩ := decl
  cases superclass with
  | none =>
    exact FunctionDecl.housesAll { context with owner := .withoutSuperclass } h.type
      methods hp.2
  | some superclass =>
    have hmethods := FunctionDecl.housesAll { context with owner := .withSuperclass }
      h.subtype methods hp.2
    exact (hmethods.visit h).cons (by simp)

lemma FunctionDecl.housesAll (context : Context) {scopes : List Scope}
    (h : Housed context.owner scopes) (methods : List FunctionDecl)
    (hp : FunctionDecl.ProperAll methods) :
    Houses (FunctionDecl.eventsMethods context scopes methods) := by
  cases methods with
  | nil => exact houses_nil
  | cons decl rest =>
    have hdecl := FunctionDecl.houses
      { context with
        function := if decl.isInitializer then .initializer else .method } h decl hp.1
    exact hdecl.append (FunctionDecl.housesAll context h rest hp.2)

end

end Resolution

section Leading

open Scope

variable {name : String}

mutual

lemma Expr.leads (value : Expr) : Leads name value.marks := by
  cases value with
  | literal => exact leads_nil
  | read | this | super => exact leads_nil.cons (by simp)
  | grouping inner | unary _ _ inner | get inner _ => exact Expr.leads inner
  | assign target inner => exact (Expr.leads inner).cons (by simp)
  | binary _ _ left right | logical _ _ left right | set left _ right =>
    exact (Expr.leads left).append (Expr.leads right)
  | call callee arguments line => exact (Expr.leads callee).append (Expr.leadsAll arguments)

lemma Expr.leadsAll (values : List Expr) : Leads name (Expr.marksAll values) := by
  cases values with
  | nil => exact leads_nil
  | cons value rest => exact (Expr.leads value).append (Expr.leadsAll rest)

end

lemma Expr.leadsOption (value : Option Expr) : Leads name (Expr.marksOption value) := by
  cases value with
  | none => exact leads_nil
  | some value => exact value.leads

lemma leads_declares (hname : ¬ IsPlain name) {declared : Name} (hp : IsPlain declared.text)
    {marks : List Mark} (h : Leads name marks) :
    Leads name (.declares declared.text :: marks) := by
  refine h.cons fun heq => hname ?_
  rw [← Mark.declares.inj heq]
  exact hp

lemma leads_closes : Leads name [.closes] :=
  leads_nil.cons (by simp)

lemma leads_single (declared : String) {marks : List Mark} (h : Leads name marks) :
    Leads name (.opens :: .declares declared :: marks) := by
  by_cases heq : declared = name
  · rw [heq]
    exact h.opens
  · exact (h.cons (by simpa using heq)).cons (by simp)

mutual

lemma Stmt.leads (hname : ¬ IsPlain name) (stated : Stmt) (hp : stated.Proper) :
    Leads name stated.marks := by
  cases stated with
  | expression value | print _ value => exact value.leads
  | ret keyword value => exact Expr.leadsOption value
  | varDecl target initial => exact leads_declares hname hp.1 (Expr.leadsOption initial)
  | functionDecl decl =>
    exact leads_declares hname (FunctionDecl.proper_iff.mp hp).1 (FunctionDecl.leads hname decl hp)
  | classDecl decl =>
    exact leads_declares hname (ClassDecl.proper_iff.mp hp).1 (ClassDecl.leads hname decl hp)
  | block body =>
    exact ((Stmt.leadsAll hname body hp).append leads_closes).cons (by simp)
  | ifElse condition thenBranch elseBranch =>
    cases elseBranch with
    | none => exact condition.leads.append (Stmt.leads hname thenBranch hp.2.2)
    | some elseBranch =>
      obtain ⟨-, ⟨-, hpthen⟩, -, hpelse⟩ := hp
      exact condition.leads.append
        ((Stmt.leads hname thenBranch hpthen).append (Stmt.leads hname elseBranch hpelse))
  | whileLoop condition body => exact condition.leads.append (Stmt.leads hname body hp.2.2)

lemma Stmt.leadsAll (hname : ¬ IsPlain name) (body : List Stmt) (hp : Stmt.ProperAll body) :
    Leads name (Stmt.marksAll body) := by
  cases body with
  | nil => exact leads_nil
  | cons stated rest =>
    exact (Stmt.leads hname stated hp.1).append (Stmt.leadsAll hname rest hp.2)

lemma FunctionDecl.leads (hname : ¬ IsPlain name) (decl : FunctionDecl) (hp : decl.Proper) :
    Leads name decl.marks := by
  obtain ⟨_, params, body⟩ := decl
  obtain ⟨-, hparams, hbody⟩ := hp
  have hnames : Leads name (params.map fun param => Mark.declares param.text) := by
    clear hbody
    induction params with
    | nil => exact leads_nil
    | cons param params ih =>
      obtain ⟨hparam, hrest⟩ := List.forall_mem_cons.mp hparams
      exact leads_declares hname hparam (ih hrest)
  have hinside := hnames.append ((Stmt.leadsAll hname body hbody).append leads_closes)
  exact hinside.cons (by simp)

lemma ClassDecl.leads (hname : ¬ IsPlain name) (decl : ClassDecl) (hp : decl.Proper) :
    Leads name decl.marks := by
  obtain ⟨_, superclass, methods⟩ := decl
  have hmethods := FunctionDecl.leadsAll hname methods hp.2
  cases superclass with
  | none => exact leads_single _ (hmethods.append leads_closes)
  | some superclass =>
    have hinside := hmethods.append (leads_closes.append leads_closes)
    exact (leads_single _ (leads_single _ hinside)).cons (by simp)

lemma FunctionDecl.leadsAll (hname : ¬ IsPlain name) (methods : List FunctionDecl)
    (hp : FunctionDecl.ProperAll methods) : Leads name (FunctionDecl.marksAll methods) := by
  cases methods with
  | nil => exact leads_nil
  | cons decl rest =>
    exact (FunctionDecl.leads hname decl hp.1).append (FunctionDecl.leadsAll hname rest hp.2)

end

end Leading

section Uses

variable {node : Expr} {use : Nat × String}

mutual

lemma Expr.uses_mem_marks (value : Expr) (hn : node ∈ value.nodes) (hu : node.use? = some use) :
    .uses node ∈ value.marks := by
  cases value with
  | literal =>
    obtain rfl := List.mem_singleton.mp hn
    simp [Expr.use?] at hu
  | read | this | super =>
    obtain rfl := List.mem_singleton.mp hn
    exact List.mem_singleton_self _
  | grouping inner | unary _ _ inner | get inner _ =>
    rcases List.mem_cons.mp hn with rfl | hn
    · simp [Expr.use?] at hu
    · exact Expr.uses_mem_marks inner hn hu
  | assign target inner =>
    rcases List.mem_cons.mp hn with rfl | hn
    · exact List.mem_cons_self ..
    · exact List.mem_cons_of_mem _ (Expr.uses_mem_marks inner hn hu)
  | binary _ _ left right | logical _ _ left right | set left _ right =>
    rcases List.mem_cons.mp hn with rfl | hn
    · simp [Expr.use?] at hu
    · rcases List.mem_append.mp hn with hn | hn
      · exact List.mem_append_left _ (Expr.uses_mem_marks left hn hu)
      · exact List.mem_append_right _ (Expr.uses_mem_marks right hn hu)
  | call callee arguments line =>
    rcases List.mem_cons.mp hn with rfl | hn
    · simp [Expr.use?] at hu
    · rcases List.mem_append.mp hn with hn | hn
      · exact List.mem_append_left _ (Expr.uses_mem_marks callee hn hu)
      · exact List.mem_append_right _ (Expr.uses_mem_marksAll arguments hn hu)

lemma Expr.uses_mem_marksAll (values : List Expr) (hn : node ∈ Expr.nodesAll values)
    (hu : node.use? = some use) : .uses node ∈ Expr.marksAll values := by
  cases values with
  | nil => simp [Expr.nodesAll] at hn
  | cons value rest =>
    rcases List.mem_append.mp hn with hn | hn
    · exact List.mem_append_left _ (Expr.uses_mem_marks value hn hu)
    · exact List.mem_append_right _ (Expr.uses_mem_marksAll rest hn hu)

end

variable {place : Place} (hpart : place.part = .expr node) (hu : node.use? = some use)

include hpart hu

lemma Expr.uses_mem_of_places {around : List Enclosure} {value : Expr}
    (h : place ∈ value.places around) : .uses node ∈ value.marks := by
  obtain ⟨given, hgiven, rfl⟩ := List.mem_map.mp h
  obtain rfl := Part.expr.inj hpart
  exact Expr.uses_mem_marks value hgiven hu

lemma Expr.uses_mem_of_placesOption {around : List Enclosure} {value : Option Expr}
    (h : place ∈ Expr.placesOption around value) : .uses node ∈ Expr.marksOption value := by
  cases value with
  | none => simp [Expr.placesOption] at h
  | some value => exact Expr.uses_mem_of_places hpart hu h

omit hpart hu

mutual

lemma Stmt.uses_mem_of_places (hpart : place.part = .expr node) (hu : node.use? = some use)
    {around : List Enclosure} (stated : Stmt) (h : place ∈ stated.places around) :
    .uses node ∈ stated.marks := by
  cases stated with
  | expression value | print _ value =>
    rcases List.mem_cons.mp h with rfl | h
    · simp at hpart
    · exact Expr.uses_mem_of_places hpart hu h
  | varDecl name initial =>
    rcases List.mem_cons.mp h with rfl | h
    · simp at hpart
    · exact List.mem_cons_of_mem _ (Expr.uses_mem_of_placesOption hpart hu h)
  | functionDecl decl =>
    rcases List.mem_cons.mp h with rfl | h
    · simp at hpart
    · exact List.mem_cons_of_mem _ (FunctionDecl.uses_mem_of_places hpart hu decl h)
  | classDecl decl =>
    rcases List.mem_cons.mp h with rfl | h
    · simp at hpart
    · exact List.mem_cons_of_mem _ (ClassDecl.uses_mem_of_places hpart hu decl h)
  | block body =>
    rcases List.mem_cons.mp h with rfl | h
    · simp at hpart
    · exact List.mem_cons_of_mem _
        (List.mem_append_left _ (Stmt.uses_mem_of_placesAll hpart hu body h))
  | ifElse condition thenBranch elseBranch =>
    cases elseBranch with
    | none =>
      rcases List.mem_cons.mp h with rfl | h
      · simp at hpart
      rcases List.mem_append.mp h with h | h
      · exact List.mem_append_left _ (Expr.uses_mem_of_places hpart hu h)
      · exact List.mem_append_right _ (Stmt.uses_mem_of_places hpart hu thenBranch h)
    | some elseBranch =>
      rcases List.mem_cons.mp h with rfl | h
      · simp at hpart
      rcases List.mem_append.mp h with h | h
      · exact List.mem_append_left _ (Expr.uses_mem_of_places hpart hu h)
      rcases List.mem_append.mp h with h | h
      · exact List.mem_append_right _
          (List.mem_append_left _ (Stmt.uses_mem_of_places hpart hu thenBranch h))
      · exact List.mem_append_right _
          (List.mem_append_right _ (Stmt.uses_mem_of_places hpart hu elseBranch h))
  | whileLoop condition body =>
    rcases List.mem_cons.mp h with rfl | h
    · simp at hpart
    rcases List.mem_append.mp h with h | h
    · exact List.mem_append_left _ (Expr.uses_mem_of_places hpart hu h)
    · exact List.mem_append_right _ (Stmt.uses_mem_of_places hpart hu body h)
  | ret keyword value =>
    rcases List.mem_cons.mp h with rfl | h
    · simp at hpart
    · exact Expr.uses_mem_of_placesOption hpart hu h

lemma Stmt.uses_mem_of_placesAll (hpart : place.part = .expr node) (hu : node.use? = some use)
    {around : List Enclosure} (body : List Stmt) (h : place ∈ Stmt.placesAll around body) :
    .uses node ∈ Stmt.marksAll body := by
  cases body with
  | nil => simp [Stmt.placesAll] at h
  | cons stated rest =>
    rcases List.mem_append.mp h with h | h
    · exact List.mem_append_left _ (Stmt.uses_mem_of_places hpart hu stated h)
    · exact List.mem_append_right _ (Stmt.uses_mem_of_placesAll hpart hu rest h)

lemma FunctionDecl.uses_mem_of_places (hpart : place.part = .expr node)
    (hu : node.use? = some use) {enclosure : FunctionDecl → Enclosure} {around : List Enclosure}
    (decl : FunctionDecl) (h : place ∈ decl.places enclosure around) : .uses node ∈ decl.marks := by
  obtain ⟨name, params, body⟩ := decl
  rcases List.mem_cons.mp h with rfl | h
  · simp at hpart
  · have hbody := Stmt.uses_mem_of_placesAll hpart hu body h
    simp [FunctionDecl.marks, hbody]

lemma ClassDecl.uses_mem_of_places (hpart : place.part = .expr node) (hu : node.use? = some use)
    {around : List Enclosure} (decl : ClassDecl) (h : place ∈ decl.places around) :
    .uses node ∈ decl.marks := by
  obtain ⟨name, superclass, methods⟩ := decl
  cases superclass with
  | none =>
    have hmethods := FunctionDecl.uses_mem_of_placesAll hpart hu methods h
    simp [ClassDecl.marks, hmethods]
  | some superclass =>
    rcases List.mem_append.mp h with h | h
    · obtain rfl := List.mem_singleton.mp h
      obtain rfl := Part.expr.inj hpart
      exact List.mem_cons_self ..
    · have hmethods := FunctionDecl.uses_mem_of_placesAll hpart hu methods h
      simp [ClassDecl.marks, hmethods]

lemma FunctionDecl.uses_mem_of_placesAll (hpart : place.part = .expr node)
    (hu : node.use? = some use) {around : List Enclosure} (methods : List FunctionDecl)
    (h : place ∈ FunctionDecl.placesAll around methods) :
    .uses node ∈ FunctionDecl.marksAll methods := by
  cases methods with
  | nil => simp [FunctionDecl.placesAll] at h
  | cons decl rest =>
    rcases List.mem_append.mp h with h | h
    · exact List.mem_append_left _ (FunctionDecl.uses_mem_of_places hpart hu decl h)
    · exact List.mem_append_right _ (FunctionDecl.uses_mem_of_placesAll hpart hu rest h)

end

end Uses

namespace Program

open Scope

variable {program : Program} {distances : List Distance}

/-- Where resolution comes to the expression at a mark, the scopes are those that the text tells, and the
table has what is found in them. -/
lemma exists_visit (h : Program.resolve program = .ok distances)
    (hids : (Stmt.idsAll program).Nodup) {before behind : List Mark} {node : Expr}
    (hmarks : program.marks = before ++ .uses node :: behind) :
    ∃ v, .visit v ∈ Program.events program ∧ v.node = node ∧ Told before v.scopes ∧
      v.Agrees (BindingTable.extend ∅ distances) := by
  have halong := Stmt.alongAll .top ⟨.none, .none⟩ program
  obtain ⟨v, hv, hnode, htold⟩ := halong.located before node behind hmarks
  have hfresh : ∀ i ∈ Stmt.idsAll program, (∅ : BindingTable)[i]? = none := by simp
  exact ⟨v, hv, hnode, htold, Program.agrees_extend h hids hfresh hv⟩

lemma getElem?_iff_boundAt (h : Program.resolve program = .ok distances)
    (hids : (Stmt.idsAll program).Nodup) {before behind : List Mark} {node : Expr}
    (hmarks : program.marks = before ++ .uses node :: behind) {i : Nat} {name : String}
    (hu : node.use? = some (i, name)) (distance : Nat) :
    (BindingTable.extend ∅ distances)[i]? = some distance ↔ BoundAt before name distance := by
  obtain ⟨v, -, rfl, htold, hagrees⟩ := exists_visit h hids hmarks
  rw [hagrees i name hu, htold.findIdx?_iff]

/-- Uses of `super` and `this` for which the text tells the same of `this`. -/
lemma super_beyond_this (h : Program.resolve program = .ok distances)
    (hids : (Stmt.idsAll program).Nodup) (hp : Stmt.ProperAll program)
    {before before' behind behind' : List Mark} {keyword keyword' : Reference} {method : Name}
    (hsuper : program.marks = before ++ .uses (.super keyword method) :: behind)
    (hthis : program.marks = before' ++ .uses (.this keyword') :: behind')
    (hsame : ∀ distance, DeclaredAt before thisName distance ↔ DeclaredAt before' thisName distance) :
    ∃ distance, (BindingTable.extend ∅ distances)[keyword.id]? = some (distance + 1) ∧
      (BindingTable.extend ∅ distances)[keyword'.id]? = some distance := by
  obtain ⟨⟨_, context, scopes⟩, hv, rfl, htold, hagrees⟩ := exists_visit h hids hsuper
  have hhouses := (Stmt.housesAll ⟨.none, .none⟩ ⟨.top, by simp⟩ program hp).1 _ hv
  have hclean := (Program.resolve_eq_ok_iff.mp h).1 _ hv
  -- No other kind of class, and no place outside of classes, lets `super` pass.
  have howner : context.owner = .withSuperclass := by
    cases hcontext : context.owner <;>
      simp [Event.findings, Visit.findings, Expr.resolve, hcontext, Findings.violationIf,
        Findings.violation] at hclean ⊢
  rw [howner] at hhouses
  obtain ⟨distance, hfar, hnear⟩ := hhouses.exists_super
  refine ⟨distance, (hagrees keyword.id superName rfl).trans hfar, ?_⟩
  rw [htold.findIdx?_iff] at hnear
  rw [getElem?_iff_boundAt h hids hthis rfl]
  exact ⟨(hsame distance).mp hnear.1, fun nearer hlt => (hsame nearer).not.mp (hnear.2 nearer hlt)⟩

/-- An accepted program has an entry in its table for each use of a name that is declared before it in
a scope around it, with the number of scopes between it and the innermost one of these: one of the scopes
that are around it. Names that are declared at top level alone have no entry. Where `super` and `this` have
the same scopes around them, the first is one scope further outward. -/
theorem bound_lexically {tokens : List Token} {n nextId : Nat}
    (hparse : Program.parse tokens n = (.ok program, nextId))
    (h : Program.resolve program = .ok distances) :
    let table := BindingTable.extend ∅ distances
    (∀ place ∈ program.places, ∀ node, place.part = .expr node → node.use?.isSome →
      .uses node ∈ program.marks) ∧
    (∀ before node behind i name, program.marks = before ++ .uses node :: behind →
      node.use? = some (i, name) →
        (∀ distance, table[i]? = some distance ↔ BoundAt before name distance) ∧
        (∃ count, unclosed? before = some count ∧
          ∀ distance, table[i]? = some distance → distance < count) ∧
        ((∀ outer between, before = outer ++ .declares name :: between → unclosed? outer = some 0) →
          table[i]? = none)) ∧
    ((∃ source, Token.scan source = .ok tokens) →
      ∀ before node between node' behind keyword method keyword',
        program.marks = before ++ .uses node :: (between ++ .uses node' :: behind) →
        unclosed? between = some 0 →
        (node = .super keyword method ∧ node' = .this keyword' ∨
          node = .this keyword' ∧ node' = .super keyword method) →
        ∃ distance, table[keyword.id]? = some (distance + 1) ∧
          table[keyword'.id]? = some distance) := by
  have hsound := Parser.parse_sound hparse
  have hids := hsound.takes.nodup
  refine ⟨?_, ?_, ?_⟩
  · intro place hplace node hpart hu
    obtain ⟨use, hu⟩ := Option.isSome_iff_exists.mp hu
    exact Stmt.uses_mem_of_placesAll hpart hu program hplace
  · intro before node behind i name hmarks hu
    have hbound := getElem?_iff_boundAt h hids hmarks hu
    refine ⟨hbound, ?_, ?_⟩
    · obtain ⟨v, -, rfl, htold, hagrees⟩ := exists_visit h hids hmarks
      refine ⟨v.scopes.length, htold.depth, fun distance hd => ?_⟩
      rw [hagrees i name hu, List.findIdx?_eq_some_iff_getElem] at hd
      exact hd.1
    · intro htop
      refine Option.eq_none_iff_forall_ne_some.mpr fun distance hd => ?_
      exact not_declaredAt_of_top htop ((hbound distance).mp hd).1
  · rintro ⟨source, hscan⟩ before node between node' behind keyword method keyword' hmarks hbetween
      hnodes
    have hp : Stmt.ProperAll program := hsound.proper fun t ht =>
      Token.wellSpelt_of_scan hscan ((List.takeWhile_sublist _).subset ht)
    have hleads : Leads thisName program.marks := Stmt.leadsAll thisName_not_plain program hp
    have hsame (distance : Nat) : DeclaredAt (before ++ .uses node :: between) thisName distance ↔
        DeclaredAt before thisName distance :=
      (hmarks ▸ hleads : Leads thisName (before ++ (.uses node :: between ++ _))).declaredAt_append
        hbetween (by simp)
    have hmarks' : program.marks = (before ++ .uses node :: between) ++ .uses node' :: behind := by
      rw [hmarks, List.append_assoc, List.cons_append]
    rcases hnodes with ⟨rfl, rfl⟩ | ⟨rfl, rfl⟩
    · exact super_beyond_this h hids hp hmarks hmarks' fun distance => (hsame distance).symm
    · exact super_beyond_this h hids hp hmarks' hmarks hsame

/-- A method that uses `super` and then `this`. -/
theorem bound_lexically_of_method : ∃ program nextId distances,
    Program.ofSource? 0 "class A \x7b\x7d class B < A \x7b f() \x7b super.f; this; \x7d \x7d" =
      some (program, nextId, distances) ∧
    ∃ distance, (BindingTable.extend ∅ distances)[1]? = some (distance + 1) ∧
      (BindingTable.extend ∅ distances)[2]? = some distance := by
  have hsource :
      Program.ofSource? 0 "class A \x7b\x7d class B < A \x7b f() \x7b super.f; this; \x7d \x7d" =
        some ([.classDecl ⟨⟨"A", 1⟩, none, []⟩,
          .classDecl ⟨⟨"B", 1⟩, some ⟨0, ⟨"A", 1⟩⟩, [⟨⟨"f", 1⟩, [],
            [.expression (.super ⟨1, ⟨"super", 1⟩⟩ ⟨"f", 1⟩),
              .expression (.this ⟨2, ⟨"this", 1⟩⟩)]⟩]⟩], 3, [(1, 2), (2, 1)]) := by cbv
  obtain ⟨tokens, hscan, hparse, hresolve⟩ := Program.ofSource?_eq_some_iff.mp hsource
  refine ⟨_, _, _, hsource, ?_⟩
  exact (bound_lexically hparse hresolve).2.2 ⟨_, hscan⟩
    [.declares "A", .opens, .declares thisName, .closes, .declares "B", .uses (.read ⟨0, ⟨"A", 1⟩⟩),
      .opens, .declares superName, .opens, .declares thisName, .opens]
    _ [] _ [.closes, .closes, .closes] ⟨1, ⟨"super", 1⟩⟩ ⟨"f", 1⟩ ⟨2, ⟨"this", 1⟩⟩
    rfl rfl (.inl ⟨rfl, rfl⟩)

end Program

end Lox
