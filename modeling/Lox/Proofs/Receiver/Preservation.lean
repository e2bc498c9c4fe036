import Lox.Proofs.Receiver.Calls

/-! Runs on record are tied to watched ones, by induction on the fuel: whenever `this` or `super` is
evaluated, it means the receiver for whom the code runs. -/

namespace Lox

lemma Machine.read?_of_lookup {m : Machine} {target : Reference} {distance : Nat} {frame : FrameRef}
    {value : Value} (hentry : m.table[target.id]? = some distance)
    (hframe : m.frames.ancestor? m.current distance = some frame)
    (hvalue : m.frames.lookup? frame target.name.text = some value) : m.read? target = some value := by
  have hbinds : m.frames.binds frame target.name.text = true :=
    Option.isSome_iff_exists.mpr ⟨value, hvalue⟩
  have hbinder : m.binder? target = some frame := by
    simp only [binder?, hentry]
    exact Frames.binderAt?_eq_some_iff.mpr ⟨hframe, hbinds⟩
  rw [read?, hbinder, Option.bind_some, hvalue]

section Meaning

variable {programs : List Program} {w : Watch} {site : Site} {receiver : Option Receiver}

lemma Visit.owner_of_this {keyword : Reference} {v : Visit} (hn : v.node = .this keyword)
    (h : (Event.visit v).findings.violations = []) : v.context.owner ≠ .none := by
  obtain ⟨node, context, scopes⟩ := v
  obtain rfl := hn
  intro hnone
  have hnone' : context.owner = .none := hnone
  simp [Event.findings, Visit.findings, Expr.resolve, hnone', Findings.violation] at h

lemma Visit.owner_of_super {keyword : Reference} {method : Name} {v : Visit}
    (hn : v.node = .super keyword method) (h : (Event.visit v).findings.violations = []) :
    v.context.owner = .withSuperclass := by
  obtain ⟨node, context, scopes⟩ := v
  obtain rfl := hn
  simp only [Event.findings, Visit.findings, Expr.resolve, Findings.violations_append,
    List.append_eq_nil_iff, Findings.violationIf_eq, decide_eq_false_iff_not] at h
  obtain ⟨⟨hnone, hwithout⟩, -⟩ := h
  cases howner : context.owner with
  | none => exact absurd howner hnone
  | withoutSuperclass => exact absurd howner hwithout
  | withSuperclass => rfl

lemma Attending.outward (h : Attending programs receiver site w) {distance : Nat} {frame : FrameRef}
    (hframe : site.frames[distance]? = some frame) :
    w.machine.frames.ancestor? w.machine.current distance = some frame := by
  rw [h.ready.holds.outward h.ready.sound.root,
    List.getElem?_append_left (List.getElem?_eq_some_iff.mp hframe).1, hframe]

lemma Attending.read_this (h : Attending programs receiver site w) {keyword : Reference}
    (hp : keyword.name.text = Scope.thisName)
    (hv : Accepted programs (.visit ⟨.this keyword, site.context, site.scopes⟩)) :
    ∃ r, receiver = some r ∧
      outcome (Run.read keyword) w.machine = (.ok (.instanceAt r.self), w.machine) := by
  have howner := Visit.owner_of_this rfl (h.ready.ruled.clean _ hv)
  obtain ⟨r, distance, frame, hr, hfound, hframe, hthis⟩ := Serves.exists_this h.serves howner
  have hentry := (h.ready.ruled.entries _ hv keyword.id Scope.thisName rfl).trans hfound
  have hread : w.machine.read? keyword = some (.instanceAt r.self) :=
    Machine.read?_of_lookup hentry (h.outward hframe) (by rw [hp, hthis])
  exact ⟨r, hr, by simp only [Run.read, outcome_bind, outcome_get, hread, Run.require, outcome_pure]⟩

lemma Attending.exists_super (h : Attending programs receiver site w) {keyword : Reference}
    {method : Name}
    (hv : Accepted programs (.visit ⟨.super keyword method, site.context, site.scopes⟩)) :
    ∃ r parent, receiver = some r ∧ r.made.superclass = some parent ∧
      w.machine.super? keyword = some (parent, r.self) := by
  have howner := Visit.owner_of_super rfl (h.ready.ruled.clean _ hv)
  have hserves := h.serves
  rw [Site.Serves, howner] at hserves
  obtain ⟨r, parent, distance, frame, upper, hr, hmade, hfound, hframe, hthis, hupper, hsuper⟩ :=
    hserves.exists_super
  have hentry := (h.ready.ruled.entries _ hv keyword.id Scope.superName rfl).trans hfound
  have hclassAt : w.machine.frames.findAt? w.machine.current (distance + 1) Scope.superName =
      some (.classAt parent) := by
    rw [Frames.findAt?, h.outward hupper, Option.bind_some, hsuper]
  have hthisAt : w.machine.frames.findAt? w.machine.current distance Scope.thisName =
      some (.instanceAt r.self) := by
    rw [Frames.findAt?, h.outward hframe, Option.bind_some, hthis]
  exact ⟨r, parent, hr, hmade, by simp only [Machine.super?, hentry, hclassAt, hthisAt]⟩

lemma Attending.means (h : Attending programs receiver site w) {node : Expr} (hp : node.Proper)
    (hv : Accepted programs (.visit ⟨node, site.context, site.scopes⟩))
    (ho : Owns receiver node.nodes) : Occasion.Means ⟨node, receiver, w.machine⟩ where
  owned := ho.mono (by simp [Expr.mem_nodes])
  this := by
    rintro keyword rfl
    obtain ⟨r, hr, hread⟩ := h.read_this hp hv
    exact ⟨r, hr, fun _ => hread⟩
  super := by
    rintro keyword method rfl
    obtain ⟨r, parent, hr, hmade, hsuper⟩ := h.exists_super hv
    exact ⟨r, parent, hr, hmade, hsuper,
      fun _ _ hfinds _ => Machine.outcome_getSuper_of_finds h.closed hsuper hfinds,
      fun hnone _ => Machine.outcome_getSuper_of_not_finds h.closed hsuper hnone⟩

end Meaning

section Declarations

variable {programs : List Program} {w : Watch} {t : Record} {site : Site} {receiver : Option Receiver}

lemma attends_define (h : Tied w t) {name : String} (hn : Scope.IsPlain name) (frame : FrameRef)
    (value : Value) :
    Attends w t (WatchedRun.lift (Run.define frame name value))
      (RecordedRun.lift (Run.define frame name value)) :=
  attends_lift h ⟨Frames.follows_define hn value, rfl, rfl, rfl, rfl⟩

lemma declareFunction_attends (hr : Attending programs receiver site w) (h : Tied w t)
    {decl : FunctionDecl} (hp : decl.Proper) (ho : Owns receiver decl.nodes) :
    Attends w t (WatchedRun.declareFunction site decl) (RecordedRun.declareFunction receiver decl) := by
  obtain ⟨hname, -⟩ := FunctionDecl.proper_iff.mp hp
  refine attends_lift_bind none h (Run.outcome_currentFrame _) ⟨.refl .., rfl, rfl, rfl, rfl⟩
    fun h' => ?_
  have hserves : (site.ofFunction decl.name).Serves w.machine.frames receiver :=
    hr.serves.introducing hr.ready.holds.plain hname
  exact Matches.bind
    (newFunction_attends h' hr.ready.sound ⟨decl, w.machine.current, false⟩ hserves ho)
    fun _ _ _ _ htied => attends_define htied hname _ _

variable {decl : ClassDecl} {superclass : Option ClassRef} {scope frame : FrameRef}

lemma makeClass_attends (h : Tied w t) (hs : Sound programs w) (place : ClassSite)
    (hroot : place.superFrame = none → superclass = none)
    (hsuper : ∀ frame, place.superFrame = some frame → ∃ parent, superclass = some parent ∧
      w.machine.frames.lookup? frame Scope.superName = some (.classAt parent)) :
    Attends w t (WatchedRun.makeClass decl superclass scope place)
      (RecordedRun.makeClass decl superclass scope) := by
  obtain ⟨machine, receivers, made, occasions⟩ := t
  obtain rfl : machine = w.machine := h.machine
  refine ⟨rfl, h.newClass hs ⟨hroot, hsuper, fun name method hmethod => ?_⟩⟩
  rcases Bindings.get?_insertAll_eq_some hmethod with hnone | hmem
  · simp at hnone
  · obtain ⟨given, hgiven, heq⟩ := List.mem_map.mp hmem
    rwa [← (Prod.mk.inj heq).2]

lemma boundClass_attends (h : Tied w t) (hs : Sound programs w) (hn : Scope.IsPlain decl.name.text)
    (place : ClassSite)
    (hroot : place.superFrame = none → superclass = none)
    (hsuper : ∀ frame, place.superFrame = some frame → ∃ parent, superclass = some parent ∧
      w.machine.frames.lookup? frame Scope.superName = some (.classAt parent)) :
    Attends w t
      (WatchedRun.makeClass decl superclass scope place >>= fun ref =>
        WatchedRun.lift (Run.define frame decl.name.text (.classAt ref)))
      (RecordedRun.makeClass decl superclass scope >>= fun ref =>
        RecordedRun.lift (Run.define frame decl.name.text (.classAt ref))) :=
  Matches.bind (makeClass_attends h hs place hroot hsuper) fun _ _ _ _ htied =>
    attends_define htied hn _ _

lemma finishClass_attends (h : Tied w t) (hs : Sound programs w) (hn : Scope.IsPlain decl.name.text) :
    Attends w t
      (do
        let scope ← match superclass with
          | some ref => WatchedRun.lift (Run.newFrame frame
              ((∅ : Bindings Value).insert Scope.superName (.classAt ref)))
          | none => pure frame
        let ref ← WatchedRun.makeClass decl superclass scope ⟨site, superclass.map fun _ => scope⟩
        WatchedRun.lift (Run.define frame decl.name.text (.classAt ref)))
      (do
        let scope ← match superclass with
          | some ref => RecordedRun.lift (Run.newFrame frame
              ((∅ : Bindings Value).insert Scope.superName (.classAt ref)))
          | none => pure frame
        let ref ← RecordedRun.makeClass decl superclass scope
        RecordedRun.lift (Run.define frame decl.name.text (.classAt ref))) := by
  cases superclass with
  | none =>
    exact boundClass_attends h hs hn ⟨site, none⟩ (fun _ => rfl) (by simp)
  | some ref =>
    have hpushed : Frames.Follows none w.machine.frames (w.machine.frames.push frame
        ((∅ : Bindings Value).insert Scope.superName (.classAt ref))) := Frames.follows_push ..
    refine attends_lift_bind none h (Run.outcome_newFrame ..) ⟨hpushed, rfl, rfl, rfl, rfl⟩
      fun h' => ?_
    refine boundClass_attends h' (hs.newFrame ..) hn ⟨site, some w.machine.frames.next⟩ (by simp) ?_
    rintro _ ⟨⟩
    exact ⟨ref, rfl, by rw [Frames.lookup?_push, if_pos rfl, Bindings.get?_insert, if_pos rfl]⟩

lemma superclass_attends (h : Tied w t) :
    Attends w t (decl.superclass.mapM (WatchedRun.superclassOf site))
      (decl.superclass.mapM fun target => RecordedRun.lift (Run.superclassOf target)) := by
  cases decl.superclass with
  | none => exact attends_pure h _
  | some target =>
    have hquiet := attends_quiet (h.journal (⟨.read target, site, w.machine⟩ :: w.journal.moments)
      w.journal.assignments) (Run.quiet_superclassOf target)
    have hnoted : Attends w t (WatchedRun.superclassOf site target)
        (RecordedRun.lift (Run.superclassOf target)) := ⟨hquiet.result, hquiet.states⟩
    exact Matches.map hnoted fun _ => rfl

lemma declareClass_attends (hr : Attending programs receiver site w) (hs : Scope.Settled site.scopes)
    (h : Tied w t) (hp : decl.Proper)
    (hv : ∀ event ∈ decl.events site.context (site.introducing decl.name).scopes,
      Accepted programs event) :
    Attends w t (WatchedRun.declareClass site decl) (RecordedRun.declareClass decl) := by
  obtain ⟨hname, -⟩ := ClassDecl.proper_iff.mp hp
  refine Matches.bind (superclass_attends h) fun superclass w' t' hx h' => ?_
  obtain ⟨hadvances, -⟩ := WatchedRun.superclass_safe hr.ready hs hv
  rw [hx] at hadvances
  refine attends_lift_bind none h' (Run.outcome_currentFrame _) ⟨.refl .., rfl, rfl, rfl, rfl⟩
    fun h'' => ?_
  have hfollows : Frames.Follows (some w'.machine.current) w'.machine.frames
      (w'.machine.frames.define w'.machine.current decl.name.text .nil) := Frames.follows_define hname _
  refine attends_lift_bind _ h'' (Run.outcome_define ..) ⟨hfollows, rfl, rfl, rfl, rfl⟩ fun h''' => ?_
  exact finishClass_attends h''' (hadvances.sound.steps ⟨hfollows, rfl, rfl, rfl, rfl⟩) hname

end Declarations

section Evaluation

variable {programs : List Program} {fuel : Nat} {w : Watch} {t : Record} {site : Site}
  {receiver : Option Receiver}

lemma evaluate_attends (h : EvaluatesOnRecord programs fuel) (hx : ExecutesOnRecord programs fuel) :
    EvaluatesOnRecord programs (fuel + 1) := by
  intro w t receiver site node hr hp hv ho htied
  have hvisit := hv _ (node.visit_mem_events site.context site.scopes)
  have hagrees := hr.ready.holds.agrees hr.ready.sound.root hr.ready.ruled hvisit hp
  have hr' : Attending programs receiver site
      { w with journal.moments := ⟨node, site, w.machine⟩ :: w.journal.moments } :=
    ⟨⟨hr.ready.sound.note hagrees, hr.ready.ruled, hr.ready.holds⟩, hr.closed, hr.serves⟩
  refine .noted htied ?_
  have htied' := htied.note (⟨node, site, w.machine⟩ :: w.journal.moments) w.journal.assignments
    (hr.means hp hvisit ho)
  cases node with
  | literal value => exact attends_pure htied' _
  | grouping inner =>
    exact h _ _ _ _ inner hr' hp (fun event he => hv event (List.mem_append_left _ he))
      (ho.mono (List.subset_cons_self ..)) htied'
  | unary op line operand =>
    have hvo : ∀ event ∈ operand.events site.context site.scopes, Accepted programs event :=
      fun event he => hv event (List.mem_append_left _ he)
    refine (h _ _ _ _ operand hr' hp hvo (ho.mono (List.subset_cons_self ..)) htied').bind
      (hr'.evaluates hp hvo) fun _ _ _ _ _ _ _ htied'' => ?_
    exact attends_quiet htied'' (Run.quiet_ofResult _ _)
  | binary op line left right =>
    obtain ⟨hvl, hvr, -⟩ : _ ∧ _ ∧ _ := by
      simpa only [Expr.events, List.forall_mem_append] using hv
    obtain ⟨hol, hor⟩ := ho.both
    refine (h _ _ _ _ left hr' hp.1 hvl hol htied').bind (hr'.evaluates hp.1 hvl)
      fun _ w' _ ha _ hc _ htied'' => ?_
    have hr'' := hr'.advances ha hc
    refine (h _ _ _ _ right hr'' hp.2 hvr hor htied'').bind (hr''.evaluates hp.2 hvr)
      fun _ _ _ _ _ _ _ htied''' => ?_
    exact attends_quiet htied''' (Run.quiet_ofResult _ _)
  | logical op line left right =>
    obtain ⟨hvl, hvr, -⟩ : _ ∧ _ ∧ _ := by
      simpa only [Expr.events, List.forall_mem_append] using hv
    obtain ⟨hol, hor⟩ := ho.both
    refine (h _ _ _ _ left hr' hp.1 hvl hol htied').bind (hr'.evaluates hp.1 hvl)
      fun _ w' _ ha _ hc _ htied'' => ?_
    exact .ite (fun _ => attends_pure htied'' _) fun _ =>
      h _ _ _ _ right (hr'.advances ha hc) hp.2 hvr hor htied''
  | read target | this target => exact attends_quiet htied' (Run.quiet_read target)
  | assign target value =>
    have hvv : ∀ event ∈ value.events site.context site.scopes, Accepted programs event :=
      fun event he => hv event (List.mem_append_left _ he)
    refine (h _ _ _ _ value hr' hp.2 hvv (ho.mono (List.subset_cons_self ..)) htied').bind
      (hr'.evaluates hp.2 hvv) fun given w' _ _ _ _ _ htied'' => ?_
    refine .notedAssignment ?_
    exact (attends_quiet (htied''.journal w'.journal.moments
      (⟨.assign target value, site, w'.machine⟩ :: w'.journal.assignments))
      (Run.quiet_assign hp.1 given)).yield
  | call callee arguments line =>
    obtain ⟨hvc, hva, -⟩ : _ ∧ _ ∧ _ := by
      simpa only [Expr.events, List.forall_mem_append] using hv
    obtain ⟨hoc, hoa⟩ := ho.both
    refine (h _ _ _ _ callee hr' hp.1 hvc hoc htied').bind (hr'.evaluates hp.1 hvc)
      fun called w' _ ha _ hc hcalled htied'' => ?_
    have hr'' := hr'.advances ha hc
    refine (evaluateEach_attends h hr'' hp.2 hva hoa htied'').bind (hr''.evaluatesEach hp.2 hva)
      fun given w'' _ ha' hgrows hc' hgiven htied''' => ?_
    have hr''' := hr''.advances ha' hc'
    exact callValue_attends hx htied''' hr'''.ready.sound hr'''.ready.ruled hc'
      (hcalled.2.grows hgrows) hgiven.2 line
  | get object property =>
    have hvo : ∀ event ∈ object.events site.context site.scopes, Accepted programs event :=
      fun event he => hv event (List.mem_append_left _ he)
    refine (h _ _ _ _ object hr' hp hvo (ho.mono (List.subset_cons_self ..)) htied').bind
      (hr'.evaluates hp hvo) fun value _ _ ha _ hc hin htied'' => ?_
    exact getProperty_attends htied'' ha.sound hc hin.2 property
  | set object property value =>
    obtain ⟨hvv, hvo, -⟩ : _ ∧ _ ∧ _ := by
      simpa only [Expr.events, List.forall_mem_append] using hv
    obtain ⟨hoo, hov⟩ := ho.both
    refine (h _ _ _ _ object hr' hp.1 hvo hoo htied').bind (hr'.evaluates hp.1 hvo)
      fun self _ _ ha _ hc _ htied'' => ?_
    have hr'' := hr'.advances ha hc
    cases self with
    | instanceAt self =>
      refine (h _ _ _ _ value hr'' hp.2 hvv hov htied'').bind (hr''.evaluates hp.2 hvv)
        fun given _ _ _ _ _ _ htied''' => ?_
      exact (attends_quiet htied''' (Run.quiet_setField self property.text given)).yield
    | nil | boolean | number | text | native | functionAt | classAt => exact attends_fail htied'' _ _
  | super keyword method => exact getSuper_attends htied' hr'.ready.sound hr'.closed keyword method

lemma option_attends (h : EvaluatesOnRecord programs fuel) {value : Option Expr}
    (hr : Attending programs receiver site w) (hp : Expr.ProperOption value)
    (hv : ∀ event ∈ Expr.eventsOption site.context site.scopes value, Accepted programs event)
    (ho : Owns receiver (Expr.nodesOption value)) (htied : Tied w t) :
    Attends w t (value.elim (pure .nil) (WatchedRun.evaluate fuel site))
      (value.elim (pure .nil) (RecordedRun.evaluate fuel receiver)) := by
  cases value with
  | none => exact attends_pure htied _
  | some value => exact h _ _ _ _ value hr (hp value rfl) hv ho htied

lemma varDecl_attends (h : EvaluatesOnRecord programs fuel) {name : Name} {initial : Option Expr}
    (hr : Attending programs receiver site w) (hn : Scope.IsPlain name.text)
    (hp : Expr.ProperOption initial)
    (hv : ∀ event ∈ (Stmt.varDecl name initial).events site.context site.scopes,
      Accepted programs event)
    (ho : Owns receiver (Expr.nodesOption initial)) (htied : Tied w t) :
    Attends w t (WatchedRun.execute (fuel + 1) site (.varDecl name initial))
      (RecordedRun.execute (fuel + 1) receiver (.varDecl name initial)) := by
  obtain ⟨hdeclare, hinitial⟩ : Accepted programs (.declare name site.scopes) ∧ _ :=
    List.forall_mem_cons.mp hv
  have hinside : Attending programs receiver (site.declaring name) w :=
    ⟨⟨hr.ready.sound, hr.ready.ruled,
      hr.ready.holds.declaring hn (hr.ready.ruled.clean _ hdeclare)⟩, hr.closed,
      hr.serves.declaring hr.ready.holds.plain hn⟩
  refine Matches.bind (option_attends h hinside hp hinitial ho htied) fun value w' _ _ htied' => ?_
  refine attends_lift_bind none htied' (Run.outcome_currentFrame _) ⟨.refl .., rfl, rfl, rfl, rfl⟩
    fun htied'' => ?_
  exact (attends_define htied'' hn _ value).yield

lemma block_attends (hx : ExecutesOnRecord programs fuel) {body : List Stmt}
    (hr : Attending programs receiver site w) (hs : Scope.Settled site.scopes)
    (hp : Stmt.ProperAll body)
    (hv : ∀ event ∈ Stmt.eventsAll site.context (∅ :: site.scopes) body, Accepted programs event)
    (ho : Owns receiver (Stmt.nodesAll body)) (htied : Tied w t) :
    Attends w t (WatchedRun.execute (fuel + 1) site (.block body))
      (RecordedRun.execute (fuel + 1) receiver (.block body)) := by
  have hpushed : Frames.Follows none w.machine.frames
      (w.machine.frames.push w.machine.current ∅) := Frames.follows_push ..
  have hempty (name : String) (value : Value) (h : (∅ : Bindings Value).get? name = some value) :
      value.In w.machine := by simp at h
  have hclosed := hr.closed.newFrame hempty w.machine.current
  refine attends_lift_bind none htied (Run.outcome_currentFrame _) ⟨.refl .., rfl, rfl, rfl, rfl⟩
    fun htied' => ?_
  refine attends_lift_bind none htied' (Run.outcome_newFrame ..) ⟨hpushed, rfl, rfl, rfl, rfl⟩
    fun htied'' => attends_within htied'' ?_
  exact sequence_attends hx
    ⟨hr.ready.inBlock hs, hclosed.grows (.of_eq rfl rfl rfl) rfl rfl rfl,
      (hr.serves.inBlock w.machine.frames.next).follows hpushed⟩
    (Scope.settled_empty hs) hp hv ho (htied''.setCurrent _)

lemma ifElse_attends (h : EvaluatesOnRecord programs fuel) (hx : ExecutesOnRecord programs fuel)
    {condition : Expr} {thenBranch : Stmt} {elseBranch : Option Stmt}
    (hr : Attending programs receiver site w) (hs : Scope.Settled site.scopes)
    (hp : (Stmt.ifElse condition thenBranch elseBranch).Proper)
    (hv : ∀ event ∈ (Stmt.ifElse condition thenBranch elseBranch).events site.context site.scopes,
      Accepted programs event)
    (ho : Owns receiver (Stmt.ifElse condition thenBranch elseBranch).nodes) (htied : Tied w t) :
    Attends w t (WatchedRun.execute (fuel + 1) site (.ifElse condition thenBranch elseBranch))
      (RecordedRun.execute (fuel + 1) receiver (.ifElse condition thenBranch elseBranch)) := by
  cases elseBranch with
  | none =>
    obtain ⟨hcondition, -, hthen⟩ := hp
    obtain ⟨hvc, hvt⟩ := List.forall_mem_append.mp hv
    refine (h _ _ _ _ condition hr hcondition hvc (ho.mono (List.subset_append_left ..)) htied).bind
      (hr.evaluates hcondition hvc) fun _ _ _ ha _ hc _ htied' => ?_
    exact .ite (fun _ => hx _ _ _ _ thenBranch (hr.advances ha hc) hs hthen hvt
      (ho.mono (List.subset_append_right ..)) htied') fun _ => attends_pure htied' _
  | some elseBranch =>
    obtain ⟨hcondition, ⟨hdt, hthen⟩, -, helse⟩ := hp
    obtain ⟨hvc, hvt, hve⟩ : _ ∧ _ ∧ _ := by
      simpa only [Stmt.events, List.forall_mem_append] using hv
    rw [Stmt.scopes_after _ _ _ hdt hthen] at hve
    have hbranches : Owns receiver (thenBranch.nodes ++ elseBranch.nodes) :=
      ho.mono (List.subset_append_right ..)
    refine (h _ _ _ _ condition hr hcondition hvc (ho.mono (List.subset_append_left ..)) htied).bind
      (hr.evaluates hcondition hvc) fun _ _ _ ha _ hc _ htied' => ?_
    have hr' := hr.advances ha hc
    refine .ite (fun _ => hx _ _ _ _ thenBranch hr' hs hthen hvt
      (hbranches.mono (List.subset_append_left ..)) htied') fun _ => ?_
    rw [Option.elim_some, Site.after_eq hdt hthen]
    exact hx _ _ _ _ elseBranch hr' hs helse hve (hbranches.mono (List.subset_append_right ..)) htied'

lemma whileLoop_attends (h : EvaluatesOnRecord programs fuel) (hx : ExecutesOnRecord programs fuel)
    {condition : Expr} {body : Stmt} (hr : Attending programs receiver site w)
    (hs : Scope.Settled site.scopes) (hp : (Stmt.whileLoop condition body).Proper)
    (hv : ∀ event ∈ (Stmt.whileLoop condition body).events site.context site.scopes,
      Accepted programs event)
    (ho : Owns receiver (Stmt.whileLoop condition body).nodes) (htied : Tied w t) :
    Attends w t (WatchedRun.execute (fuel + 1) site (.whileLoop condition body))
      (RecordedRun.execute (fuel + 1) receiver (.whileLoop condition body)) := by
  obtain ⟨hcondition, hdeclaration, hbody⟩ := hp
  obtain ⟨hvc, hvb⟩ := List.forall_mem_append.mp hv
  refine (h _ _ _ _ condition hr hcondition hvc (ho.mono (List.subset_append_left ..)) htied).bind
    (hr.evaluates hcondition hvc) fun _ _ _ ha _ hc _ htied' => ?_
  have hr' := hr.advances ha hc
  refine .ite (fun _ => ?_) fun _ => attends_pure htied' _
  refine (hx _ _ _ _ body hr' hs hbody hvb (ho.mono (List.subset_append_right ..)) htied').bind
    (hr'.executes hs hbody hvb) fun completion _ _ ha' _ hc' ⟨hpost, _⟩ htied'' => ?_
  cases completion with
  | normal =>
    have hr'' := hr'.after hbody ha' hc' (hpost rfl).1
    rw [Site.after_eq hdeclaration hbody] at hr''
    exact hx _ _ _ _ (.whileLoop condition body) hr'' hs ⟨hcondition, hdeclaration, hbody⟩ hv ho htied''
  | returned value => exact attends_pure htied'' _

lemma execute_attends (h : EvaluatesOnRecord programs fuel) (hx : ExecutesOnRecord programs fuel) :
    ExecutesOnRecord programs (fuel + 1) := by
  intro w t receiver site stated hr hs hp hv ho htied
  cases stated with
  | expression value => exact (h _ _ _ _ value hr hp hv ho htied).yield
  | print line value =>
    refine (h _ _ _ _ value hr hp hv ho htied).bind (hr.evaluates hp hv)
      fun value w' _ _ _ _ _ htied' => attends_get ?_
    rw [htied'.machine]
    exact (attends_quiet htied' (Run.quiet_print _ line)).yield
  | varDecl name initial => exact varDecl_attends h hr hp.1 hp.2 hv ho htied
  | functionDecl decl => exact (declareFunction_attends hr htied hp ho).yield
  | classDecl decl =>
    exact (declareClass_attends hr hs htied hp (List.forall_mem_cons.mp hv).2).yield
  | block body => exact block_attends hx hr hs hp hv ho htied
  | ifElse condition thenBranch elseBranch => exact ifElse_attends h hx hr hs hp hv ho htied
  | whileLoop condition body => exact whileLoop_attends h hx hr hs hp hv ho htied
  | ret keyword value =>
    exact (option_attends h hr hp (List.forall_mem_cons.mp hv).2 ho htied).yield

lemma all_attend (programs : List Program) (fuel : Nat) :
    EvaluatesOnRecord programs fuel ∧ ExecutesOnRecord programs fuel := by
  induction fuel with
  | zero =>
    exact ⟨fun _ _ _ _ _ _ _ _ _ htied => attends_throw htied .outOfFuel,
      fun _ _ _ _ _ _ _ _ _ _ htied => attends_throw htied .outOfFuel⟩
  | succ fuel ih => exact ⟨evaluate_attends ih.1 ih.2, execute_attends ih.1 ih.2⟩

lemma executeProgram_attends (fuel : Nat) {program : Program} (hs : Sound programs w)
    (hr : Ruled programs w.machine.table) (hclosed : w.machine.Closed)
    (hc : w.machine.current = .globals) (hp : Stmt.ProperAll program)
    (hv : ∀ event ∈ Program.events program, Accepted programs event) (htied : Tied w t) :
    Attends w t (WatchedRun.executeProgram fuel .top program)
      (RecordedRun.executeProgram fuel program) := by
  induction program generalizing w t with
  | nil => exact attends_pure htied _
  | cons stated rest ih =>
    obtain ⟨hvs, hvr⟩ := List.forall_mem_append.mp hv
    rw [Stmt.scopes_after_top] at hvr
    have hsettled : Scope.Settled Site.top.scopes := by simp [Site.top, Scope.Settled]
    have hattending : Attending programs none .top w := ⟨⟨hs, hr, Site.holds_top hc⟩, hclosed, .top⟩
    have hfirst := (all_attend programs fuel).2 w t none .top stated hattending hsettled hp.1 hvs
      (owns_none _) htied
    refine hfirst.bind (hattending.executes hsettled hp.1 hvs)
      fun _ w' _ ha _ hclosed' _ htied' => ?_
    rw [Site.after_top]
    exact ih ha.sound (ha.ruled hr) hclosed' (ha.current.trans hc) hp.2 hvr htied'

end Evaluation

end Lox
