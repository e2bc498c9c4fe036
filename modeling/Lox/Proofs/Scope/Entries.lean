import Lox.Proofs.Scope.Events

/-! The entries of the binding table that an accepted program makes: each use of a name has the
distance at which resolution found the name when it came to it, and none if it did not find it. -/

namespace Lox

open Findings

lemma Findings.violations_ofEvents (es : List Event) :
    (ofEvents es).violations = [] ↔ ∀ event ∈ es, event.findings.violations = [] := by
  induction es with
  | nil => simp [ofEvents, EmptyCollection.emptyCollection]
  | cons event rest ih => simp [ofEvents, ih]

lemma Findings.mem_distances_ofEvents {es : List Event} {entry : Distance} :
    entry ∈ (ofEvents es).distances ↔ ∃ event ∈ es, entry ∈ event.findings.distances := by
  induction es with
  | nil => simp [ofEvents, EmptyCollection.emptyCollection]
  | cons event rest ih => simp [ofEvents, ih]

lemma Program.resolve_eq_ok_iff {program : Program} {distances : List Distance} :
    Program.resolve program = .ok distances ↔
      (∀ event ∈ Program.events program, event.findings.violations = []) ∧
        distances = (ofEvents (Program.events program)).distances := by
  have hevents := Stmt.resolveAll_eq_ofEvents ⟨.none, .none⟩ [] program
  simp only [Program.resolve, hevents, ← Findings.violations_ofEvents]
  constructor
  · intro h
    split at h
    · rename_i hnone
      exact ⟨hnone, (Except.ok.inj h).symm⟩
    · simp at h
  · rintro ⟨hnone, rfl⟩
    rw [Program.events] at hnone
    rw [hnone]
    rfl

section Ids

def Event.ids (es : List Event) : List Nat :=
  es.filterMap Event.id?

@[simp] lemma Event.ids_append (es fs : List Event) : ids (es ++ fs) = ids es ++ ids fs :=
  List.filterMap_append

lemma Event.ids_visit (v : Visit) :
    ids [.visit v] = (v.node.use?.map Prod.fst).toList := by
  cases h : v.node.use? <;> simp [ids, id?, h]

lemma Event.ids_introductions (names : List Name) (scopes : List Scope) :
    ids (Scope.introductions names scopes) = [] := by
  induction names generalizing scopes with
  | nil => rfl
  | cons name names ih => exact ih _

mutual

lemma Expr.ids_events (context : Context) (scopes : List Scope) (value : Expr) :
    (Event.ids (value.events context scopes)).Perm value.ids := by
  cases value with
  | literal | read | this | super => exact .refl _
  | grouping inner | unary _ _ inner | get inner _ =>
    have h := Expr.ids_events context scopes inner
    simpa [Expr.events, Event.ids_visit, Expr.use?, Expr.ids] using h
  | assign target inner =>
    have h := Expr.ids_events context scopes inner
    simp only [Expr.events, Event.ids_append, Expr.ids]
    exact List.perm_append_comm.trans (h.cons target.id)
  | binary _ _ left right | logical _ _ left right =>
    have hl := Expr.ids_events context scopes left
    have hr := Expr.ids_events context scopes right
    simpa [Expr.events, Event.ids_visit, Expr.use?, Expr.ids] using hl.append hr
  | set object _ value =>
    have hv := Expr.ids_events context scopes value
    have ho := Expr.ids_events context scopes object
    have h := List.perm_append_comm.trans (ho.append hv)
    simpa [Expr.events, Event.ids_visit, Expr.use?, Expr.ids] using h
  | call callee arguments line =>
    have hc := Expr.ids_events context scopes callee
    have ha := Expr.ids_eventsAll context scopes arguments
    simpa [Expr.events, Event.ids_visit, Expr.use?, Expr.ids] using hc.append ha

lemma Expr.ids_eventsAll (context : Context) (scopes : List Scope) (values : List Expr) :
    (Event.ids (Expr.eventsAll context scopes values)).Perm (Expr.idsAll values) := by
  cases values with
  | nil => exact .refl _
  | cons value rest =>
    have hv := Expr.ids_events context scopes value
    have hr := Expr.ids_eventsAll context scopes rest
    simpa only [Expr.eventsAll, Event.ids_append, Expr.idsAll] using hv.append hr

end

lemma Expr.ids_eventsOption (context : Context) (scopes : List Scope) (value : Option Expr) :
    (Event.ids (Expr.eventsOption context scopes value)).Perm (value.elim [] Expr.ids) := by
  cases value with
  | none => exact .refl _
  | some value => exact value.ids_events context scopes

mutual

lemma Stmt.ids_events (context : Context) (scopes : List Scope) (stated : Stmt) :
    (Event.ids (stated.events context scopes)).Perm stated.ids := by
  cases stated with
  | expression value | print _ value => exact value.ids_events context scopes
  | varDecl _ initial | ret _ initial => exact Expr.ids_eventsOption context _ initial
  | functionDecl decl => exact FunctionDecl.ids_events _ _ decl
  | classDecl decl =>
    obtain ⟨name, superclass, methods⟩ := decl
    cases superclass with
    | none => exact FunctionDecl.ids_eventsMethods _ _ methods
    | some parent => exact (FunctionDecl.ids_eventsMethods _ _ methods).cons parent.id
  | block body => exact Stmt.ids_eventsAll _ _ body
  | ifElse condition thenBranch elseBranch =>
    have hc := condition.ids_events context scopes
    have ht := Stmt.ids_events context scopes thenBranch
    cases elseBranch with
    | none => simpa only [Stmt.events, Event.ids_append, Stmt.ids] using hc.append ht
    | some elseBranch =>
      have he := Stmt.ids_events context (thenBranch.resolve context scopes).2 elseBranch
      simpa only [Stmt.events, Event.ids_append, Stmt.ids] using hc.append (ht.append he)
  | whileLoop condition body =>
    have hc := condition.ids_events context scopes
    have hb := Stmt.ids_events context scopes body
    simpa only [Stmt.events, Event.ids_append, Stmt.ids] using hc.append hb

lemma Stmt.ids_eventsAll (context : Context) (scopes : List Scope) (body : List Stmt) :
    (Event.ids (Stmt.eventsAll context scopes body)).Perm (Stmt.idsAll body) := by
  cases body with
  | nil => exact .refl _
  | cons stated rest =>
    have hs := Stmt.ids_events context scopes stated
    have hr := Stmt.ids_eventsAll context (stated.resolve context scopes).2 rest
    simpa only [Stmt.eventsAll, Event.ids_append, Stmt.idsAll] using hs.append hr

lemma FunctionDecl.ids_events (context : Context) (scopes : List Scope) (decl : FunctionDecl) :
    (Event.ids (decl.events context scopes)).Perm decl.ids := by
  obtain ⟨name, params, body⟩ := decl
  have hb := Stmt.ids_eventsAll context (Scope.introduceAll params (∅ :: scopes)).2 body
  simpa only [FunctionDecl.events, Event.ids_append, Event.ids_introductions, List.nil_append,
    FunctionDecl.ids] using hb

lemma FunctionDecl.ids_eventsMethods (context : Context) (scopes : List Scope)
    (methods : List FunctionDecl) :
    (Event.ids (FunctionDecl.eventsMethods context scopes methods)).Perm
      (FunctionDecl.idsAll methods) := by
  cases methods with
  | nil => exact .refl _
  | cons method rest =>
    have hm := FunctionDecl.ids_events
      { context with function := if method.isInitializer then .initializer else .method } scopes method
    have hr := FunctionDecl.ids_eventsMethods context scopes rest
    simpa only [FunctionDecl.eventsMethods, Event.ids_append, FunctionDecl.idsAll] using hm.append hr

end

end Ids

/-- A use of a name has the entry of the table that resolution found for it. -/
def Visit.Agrees (table : BindingTable) (v : Visit) : Prop :=
  ∀ i name, v.node.use? = some (i, name) → table[i]? = v.scopes.findIdx? (·.contains name)

lemma Findings.violationIf_eq {condition : Bool} {cause : Violation.Cause} {name : Name} :
    (violationIf condition cause name).violations = [] ↔ condition = false := by
  cases condition <;> simp [violationIf, violation, EmptyCollection.emptyCollection]

@[simp] lemma Findings.distances_violationIf (condition : Bool) (cause : Violation.Cause)
    (name : Name) : (violationIf condition cause name).distances = [] := by
  cases condition <;> rfl

lemma Visit.distances_findings {v : Visit} (h : v.findings.violations = []) {i : Nat}
    {name : String} (hu : v.node.use? = some (i, name)) :
    v.findings.distances = (bound v.scopes i name).distances := by
  obtain ⟨node, context, scopes⟩ := v
  cases node with
  | read target =>
    obtain ⟨rfl, rfl⟩ : target.id = i ∧ target.name.text = name := by simpa [Expr.use?] using hu
    simp [findings, Reference.resolveRead]
  | assign target value =>
    obtain ⟨rfl, rfl⟩ : target.id = i ∧ target.name.text = name := by simpa [Expr.use?] using hu
    rfl
  | this keyword =>
    obtain ⟨rfl, rfl⟩ : keyword.id = i ∧ Scope.thisName = name := by simpa [Expr.use?] using hu
    simp only [findings, Expr.resolve] at h ⊢
    split at h
    · simp [violation] at h
    · rw [if_neg (by assumption)]
  | super keyword method =>
    obtain ⟨rfl, rfl⟩ : keyword.id = i ∧ Scope.superName = name := by simpa [Expr.use?] using hu
    simp [findings, Expr.resolve]
  | literal | grouping | unary | binary | logical | call | get | set => simp [Expr.use?] at hu

lemma Findings.mem_distances_bound {scopes : List Scope} {i : Nat} {name : String}
    {entry : Distance} : entry ∈ (bound scopes i name).distances ↔
      entry.1 = i ∧ scopes.findIdx? (·.contains name) = some entry.2 := by
  unfold bound
  split
  · rename_i distance hd
    simp [hd, Prod.ext_iff, eq_comm]
  · rename_i hd
    simp [hd, EmptyCollection.emptyCollection]

lemma Event.id?_of_mem_distances {event : Event} {entry : Distance}
    (h : entry ∈ event.findings.distances) : event.id? = some entry.1 := by
  cases event with
  | declare name scopes =>
    cases scopes <;> simp [findings, Scope.declare, EmptyCollection.emptyCollection] at h
  | ret context keyword value => simp [findings] at h
  | inherit name superclass => simp [findings] at h
  | visit v =>
    obtain ⟨node, context, scopes⟩ := v
    cases node with
    | read target =>
      simp only [findings, Visit.findings, Reference.resolveRead, distances_append,
        distances_violationIf, List.nil_append, mem_distances_bound] at h
      exact congrArg some h.1.symm
    | assign target value =>
      simp only [findings, Visit.findings, mem_distances_bound] at h
      exact congrArg some h.1.symm
    | this keyword =>
      simp only [findings, Visit.findings, Expr.resolve] at h
      split at h
      · simp [violation] at h
      · exact congrArg some (mem_distances_bound.mp h).1.symm
    | super keyword method =>
      simp only [findings, Visit.findings, Expr.resolve, distances_append,
        distances_violationIf, List.nil_append, mem_distances_bound] at h
      exact congrArg some h.1.symm
    | literal | grouping | unary | binary | logical | call | get | set =>
      simp [findings, Visit.findings, EmptyCollection.emptyCollection] at h

lemma Event.eq_of_id?_eq {es : List Event} (h : (ids es).Nodup) {a b : Event} (ha : a ∈ es)
    (hb : b ∈ es) {i : Nat} (hai : a.id? = some i) (hbi : b.id? = some i) : a = b := by
  induction es with
  | nil => simp at ha
  | cons event rest ih =>
    have mem_rest {c : Event} (hc : c ∈ rest) (hci : c.id? = some i) : i ∈ ids rest :=
      List.mem_filterMap.mpr ⟨c, hc, hci⟩
    rcases hi : event.id? with _ | j
    · have hrest : (ids rest).Nodup := by simpa [ids, hi] using h
      rcases List.mem_cons.mp ha with rfl | ha'
      · simp [hi] at hai
      rcases List.mem_cons.mp hb with rfl | hb'
      · simp [hi] at hbi
      exact ih hrest ha' hb'
    · obtain ⟨hj, hrest⟩ : j ∉ ids rest ∧ (ids rest).Nodup := by simpa [ids, hi] using h
      rcases List.mem_cons.mp ha with rfl | ha' <;> rcases List.mem_cons.mp hb with rfl | hb'
      · rfl
      · obtain rfl : i = j := by simpa [hai] using hi
        exact absurd (mem_rest hb' hbi) hj
      · obtain rfl : i = j := by simpa [hbi] using hi
        exact absurd (mem_rest ha' hai) hj
      · exact ih hrest ha' hb'

lemma BindingTable.getElem?_extend_of_notMem {distances : List Distance} {i : Nat}
    (h : ∀ distance, (i, distance) ∉ distances) (table : BindingTable) :
    (table.extend distances)[i]? = table[i]? := by
  induction distances generalizing table with
  | nil => rfl
  | cons entry rest ih =>
    obtain ⟨j, distance⟩ := entry
    have hj : j ≠ i := by
      rintro rfl
      exact h distance (List.mem_cons_self ..)
    change (BindingTable.extend (table.insert j distance) rest)[i]? = _
    rw [ih fun d hd => h d (List.mem_cons_of_mem _ hd), Std.TreeMap.getElem?_insert,
      if_neg (by simpa [Std.compare_eq_iff_eq] using hj)]

lemma BindingTable.getElem?_extend_of_mem {distances : List Distance} {i distance : Nat}
    (h : (i, distance) ∈ distances) (hunique : ∀ other, (i, other) ∈ distances → other = distance)
    (table : BindingTable) : (table.extend distances)[i]? = some distance := by
  induction distances generalizing table with
  | nil => simp at h
  | cons entry rest ih =>
    change (BindingTable.extend (table.insert entry.1 entry.2) rest)[i]? = _
    by_cases hrest : ∃ other, (i, other) ∈ rest
    · obtain ⟨other, ho⟩ := hrest
      obtain rfl := hunique other (List.mem_cons_of_mem _ ho)
      exact ih ho (fun d hd => hunique d (List.mem_cons_of_mem _ hd)) _
    · obtain rfl : entry = (i, distance) := by
        rcases List.mem_cons.mp h with h | h
        · exact h.symm
        · exact absurd ⟨distance, h⟩ hrest
      rw [getElem?_extend_of_notMem (fun d hd => hrest ⟨d, hd⟩), Std.TreeMap.getElem?_insert_self]

/-- With the entries of an accepted program the table agrees with all its uses of names. -/
lemma Program.agrees_extend {program : Program} {distances : List Distance} {table : BindingTable}
    (h : Program.resolve program = .ok distances) (hids : (Stmt.idsAll program).Nodup)
    (hfresh : ∀ i ∈ Stmt.idsAll program, table[i]? = none) {v : Visit}
    (hv : .visit v ∈ Program.events program) : v.Agrees (table.extend distances) := by
  intro i name hu
  obtain ⟨hclean, rfl⟩ := Program.resolve_eq_ok_iff.mp h
  have hperm := Stmt.ids_eventsAll ⟨.none, .none⟩ [] program
  have hnodup : (Event.ids (Program.events program)).Nodup := hperm.nodup_iff.mpr hids
  have hid : (Event.visit v).id? = some i := by simp [Event.id?, hu]
  have hmem {d : Nat} (hd : (i, d) ∈ (ofEvents (Program.events program)).distances) :
      v.scopes.findIdx? (·.contains name) = some d := by
    obtain ⟨event, he, hd⟩ := Findings.mem_distances_ofEvents.mp hd
    obtain rfl := Event.eq_of_id?_eq hnodup he hv (Event.id?_of_mem_distances hd) hid
    rw [Event.findings, Visit.distances_findings (hclean _ hv) hu] at hd
    exact (Findings.mem_distances_bound.mp hd).2
  rcases hfind : v.scopes.findIdx? (·.contains name) with _ | d
  · rw [hfind, BindingTable.getElem?_extend_of_notMem]
    · refine hfresh i (hperm.mem_iff.mp ?_)
      exact List.mem_filterMap.mpr ⟨_, hv, hid⟩
    · intro d hd
      simp [hmem hd] at hfind
  · rw [hfind]
    refine BindingTable.getElem?_extend_of_mem (Findings.mem_distances_ofEvents.mpr ⟨_, hv, ?_⟩) ?_ _
    · rw [Event.findings, Visit.distances_findings (hclean _ hv) hu]
      exact Findings.mem_distances_bound.mpr ⟨rfl, hfind⟩
    · intro other ho
      simpa [hfind] using (hmem ho).symm

end Lox
