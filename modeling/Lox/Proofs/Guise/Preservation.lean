import Lox.Proofs.Guise.Declarations

/-! A run in a faithful guise does what the watched run does, by induction on the fuel. -/

namespace Lox.Guise

variable {g : Guise} {programs : List Program} {fuel : Nat} {w : Watch} {site : Site}

abbrev EvaluatesAt (g : Guise) (programs : List Program) (fuel : Nat) : Prop :=
  g.EvaluatesAlike programs (WatchedRun.evaluate fuel) (evaluateBy g.find fuel)

abbrev ExecutesAt (g : Guise) (programs : List Program) (fuel : Nat) : Prop :=
  g.ExecutesAlike programs (WatchedRun.execute fuel) (executeBy g.find fuel)

lemma UnaryOp.cause_apply (l : Labels) (op : UnaryOp) {value : Value} {cause : RuntimeError.Cause}
    (h : op.apply value = .error cause) : l.cause cause = cause := by
  cases op <;> cases value <;> cases h <;> rfl

lemma BinaryOp.cause_apply (l : Labels) (op : BinaryOp) {left right : Value}
    {cause : RuntimeError.Cause} (h : op.apply left right = .error cause) : l.cause cause = cause := by
  cases op <;> cases left <;> cases right <;> cases h <;> rfl

lemma mirrors_ofResult (hn : Named programs w) {line : Nat} {result : Except RuntimeError.Cause Value}
    (h : ∀ cause, result = .error cause → g.labels.cause cause = cause) :
    g.Mirrors programs w (WatchedRun.lift (Run.ofResult line result))
      (Run.ofResult (g.labels.line line) result) id := by
  refine mirrors_lift (carries_ofResult h) ?_
  cases result <;> exact hn

lemma evaluate_mirrors (hg : g.Faithful programs)
    (h : g.EvaluatesAt programs fuel)
    (hx : g.ExecutesAt programs fuel) :
    g.EvaluatesAt programs (fuel + 1) := by
  refine ⟨WatchedRun.evaluate_safe h.safely hx.safely, fun w site node hr hp hv => ?_⟩
  have hagrees := hr.ready.holds.agrees hr.ready.sound.root hr.ready.ruled
    (hv _ (node.visit_mem_events site.context site.scopes)) hp
  have hr' : Placed programs site
      { w with journal.moments := ⟨node, site, w.machine⟩ :: w.journal.moments } :=
    hr.note (List.forall_mem_cons.mpr ⟨hagrees, hr.ready.sound.moments⟩) hr.ready.sound.assignments
  cases node with
  | literal value => exact .noted (mirrors_pure hr'.named rfl)
  | grouping inner =>
    exact .noted (h.mirrors _ _ inner hr' hp fun event he => hv event (List.mem_append_left _ he))
  | unary op line operand =>
    have hvo : ∀ event ∈ operand.events site.context site.scopes, Accepted programs event :=
      fun event he => hv event (List.mem_append_left _ he)
    refine .noted ((h.mirrors _ _ operand hr' hp hvo).bind (h.safely _ _ operand hr'.ready hp hvo)
      fun _ _ _ _ hn => ?_)
    exact mirrors_ofResult hn fun _ => UnaryOp.cause_apply _ op
  | binary op line left right =>
    obtain ⟨hvl, hvr, -⟩ : _ ∧ _ ∧ _ := by
      simpa only [Expr.events, List.forall_mem_append] using hv
    refine .noted ((h.mirrors _ _ left hr' hp.1 hvl).bind (h.safely _ _ left hr'.ready hp.1 hvl)
      fun _ _ hadvances _ hn => ?_)
    have hr'' := hr'.advances hadvances hn
    refine (h.mirrors _ _ right hr'' hp.2 hvr).bind (h.safely _ _ right hr''.ready hp.2 hvr)
      fun _ _ _ _ hn' => ?_
    exact mirrors_ofResult hn' fun _ => BinaryOp.cause_apply _ op
  | logical op line left right =>
    obtain ⟨hvl, hvr, -⟩ : _ ∧ _ ∧ _ := by
      simpa only [Expr.events, List.forall_mem_append] using hv
    refine .noted ((h.mirrors _ _ left hr' hp.1 hvl).bind (h.safely _ _ left hr'.ready hp.1 hvl)
      fun _ _ hadvances _ hn => ?_)
    exact .ite (fun _ => mirrors_pure hn rfl) fun _ =>
      h.mirrors _ _ right (hr'.advances hadvances hn) hp.2 hvr
  | read target =>
    exact .noted (mirrors_read hr'.named
      (hg.reads w site _ target hr.ready.sound hr.ready.ruled hr.named hr.clean hagrees (.inl rfl)))
  | this keyword =>
    exact .noted (mirrors_read hr'.named
      (hg.reads w site _ keyword hr.ready.sound hr.ready.ruled hr.named hr.clean hagrees
        (.inr ⟨rfl, hp⟩)))
  | assign target value =>
    have hvv : ∀ event ∈ value.events site.context site.scopes, Accepted programs event :=
      fun event he => hv event (List.mem_append_left _ he)
    refine .noted ((h.mirrors _ _ value hr' hp.2 hvv).bind (h.safely _ _ value hr'.ready hp.2 hvv)
      fun given w' hadvances _ hn => ?_)
    have hr'' := hr'.advances hadvances hn
    have hfinds := hg.assigns w' site target value hr''
      (hv _ (Expr.visit_mem_events site.context site.scopes (.assign target value))) hp.1
    have hn' := hn.note w'.journal.moments
      (⟨.assign target value, site, w'.machine⟩ :: w'.journal.assignments)
    refine .notedAssignment (Matches.bind (mirrors_assign hn' hp.1 hfinds given)
      fun _ _ _ _ hrelated => ?_)
    exact matches_pure hrelated rfl
  | call callee arguments line =>
    obtain ⟨hvc, hva, -⟩ : _ ∧ _ ∧ _ := by
      simpa only [Expr.events, List.forall_mem_append] using hv
    refine .noted ((h.mirrors _ _ callee hr' hp.1 hvc).bind (h.safely _ _ callee hr'.ready hp.1 hvc)
      fun called _ hadvances _ hn => ?_)
    have hr'' := hr'.advances hadvances hn
    refine (evaluateEach_mirrors h hr'' hp.2 hva).bind
      (WatchedRun.evaluateEach_safe h.safely hr''.ready hp.2 hva) fun given _ hadvances' _ hn' => ?_
    have hr''' := hr''.advances hadvances' hn'
    exact callValue_mirrors hg hx hr'''.ready.sound hr'''.ready.ruled hn' called given line
  | get object property =>
    have hvo : ∀ event ∈ object.events site.context site.scopes, Accepted programs event :=
      fun event he => hv event (List.mem_append_left _ he)
    refine .noted ((h.mirrors _ _ object hr' hp hvo).bind (h.safely _ _ object hr'.ready hp hvo)
      fun value _ hadvances _ hn => ?_)
    exact getProperty_mirrors hg hadvances.sound hn value property
  | set object property value =>
    obtain ⟨hvv, hvo, -⟩ : _ ∧ _ ∧ _ := by
      simpa only [Expr.events, List.forall_mem_append] using hv
    refine .noted ((h.mirrors _ _ object hr' hp.1 hvo).bind (h.safely _ _ object hr'.ready hp.1 hvo)
      fun self _ hadvances _ hn => ?_)
    have hr'' := hr'.advances hadvances hn
    cases self with
    | instanceAt self =>
      refine (h.mirrors _ _ value hr'' hp.2 hvv).bind (h.safely _ _ value hr''.ready hp.2 hvv)
        fun given _ _ _ hn' => ?_
      exact mirrors_lift_bind (carries_setField self property.text given) rfl
        (hn'.same rfl rfl rfl) fun hn'' => mirrors_pure hn'' rfl
    | nil | boolean | number | text | native | functionAt | classAt => exact mirrors_fail hn rfl rfl
  | super keyword method =>
    have hvisit := hv _ (Expr.visit_mem_events site.context site.scopes (.super keyword method))
    have hentry : g.table[keyword.id]? = w.machine.table[keyword.id]? :=
      (hg.entries _ hvisit _ _ rfl).trans (hr.ready.ruled.entries _ hvisit _ _ rfl).symm
    exact .noted (getSuper_mirrors hg hr'.ready.sound hr'.named hentry method)

lemma option_mirrors (h : g.EvaluatesAt programs fuel)
    {value : Option Expr} (hr : Placed programs site w) (hp : Expr.ProperOption value)
    (hv : ∀ event ∈ Expr.eventsOption site.context site.scopes value, Accepted programs event) :
    g.Mirrors programs w (value.elim (pure .nil) (WatchedRun.evaluate fuel site))
      ((value.map (Expr.relabel g.labels)).elim (pure .nil) (evaluateBy g.find fuel)) id := by
  cases value with
  | none => exact mirrors_pure hr.named rfl
  | some value => exact h.mirrors _ _ value hr (hp value rfl) hv

lemma varDecl_mirrors (hg : g.Faithful programs)
    (h : g.EvaluatesAt programs fuel) {name : Name}
    {initial : Option Expr} (hr : Placed programs site w) (hs : Scope.Settled site.scopes)
    (hp : Scope.IsPlain name.text) (hp' : Expr.ProperOption initial)
    (hv : ∀ event ∈ (Stmt.varDecl name initial).events site.context site.scopes,
      Accepted programs event) :
    g.Mirrors programs w (WatchedRun.execute (fuel + 1) site (.varDecl name initial))
      (executeBy g.find (fuel + 1) ((Stmt.varDecl name initial).relabel g.labels)) id := by
  obtain ⟨hdeclare, hinitial⟩ : Accepted programs (.declare name site.scopes) ∧ _ :=
    List.forall_mem_cons.mp hv
  have hinside : Placed programs (site.declaring name) w :=
    ⟨⟨hr.ready.sound, hr.ready.ruled,
      hr.ready.holds.declaring hp (hr.ready.ruled.clean _ hdeclare)⟩, hr.named, hr.clean.declare,
      .inr ⟨name, site.scopes, hs, hdeclare, rfl⟩⟩
  refine (option_mirrors h hinside hp' hinitial).bind
    (WatchedRun.option_safe h.safely hinside.ready hp' hinitial) fun value w' hadvances _ hn => ?_
  have hr' := hr.ready.advances hadvances
  refine mirrors_lift_bind carries_currentFrame (Run.outcome_currentFrame _) hn fun _ => ?_
  have hdefine := mirrors_define (g := g) hn hp hdeclare (hg.tells_declared hr' hdeclare)
    (Placed.ancestor?_current hr') (Placed.beside_current hr' hdeclare) value
  exact Matches.bind hdefine fun _ _ _ _ hrelated => matches_pure hrelated rfl

lemma block_mirrors (hx : g.ExecutesAt programs fuel)
    {body : List Stmt} (hr : Placed programs site w) (hs : Scope.Settled site.scopes)
    (hp : Stmt.ProperAll body)
    (hv : ∀ event ∈ Stmt.eventsAll site.context (∅ :: site.scopes) body, Accepted programs event)
    (hd : ∀ d ∈ Stmt.declarationsAll true body, Declares programs d) :
    g.Mirrors programs w (WatchedRun.execute (fuel + 1) site (.block body))
      (executeBy g.find (fuel + 1) ((Stmt.block body).relabel g.labels)) id := by
  have hcurrent := hr.ready.current_lt
  have hpushed : Frames.Follows none w.machine.frames
      (w.machine.frames.push w.machine.current ∅) := Frames.follows_push ..
  refine mirrors_lift_bind carries_currentFrame (Run.outcome_currentFrame _) hr.named fun hn => ?_
  refine mirrors_lift_bind
    (carries_newFrame hr.ready.sound.nonempty _ (Bindings.mapKeys_empty _).symm)
    (Run.outcome_newFrame ..) (hn.pushEmpty hcurrent) fun hn' => ?_
  have hclean : (w.machine.frames.push w.machine.current ∅).SpecialInPlace (∅ :: site.scopes)
      (w.machine.frames.next :: site.frames) :=
    (hpushed.specialInPlace hr.clean).cons (by simp [Frames.push, Frames.next])
      (by simp [Frames.binds, Frames.lookup?_push])
  exact mirrors_within (sequence_mirrors hx
    ⟨hr.ready.inBlock hs, hn'.setCurrent _, hclean, .inl (Scope.settled_empty hs)⟩
    (Scope.settled_empty hs) hp hv hd)

lemma ifElse_mirrors (h : g.EvaluatesAt programs fuel) (hx : g.ExecutesAt programs fuel)
    {condition : Expr} {thenBranch : Stmt} {elseBranch : Option Stmt} {isLocal : Bool}
    (hr : Placed programs site w) (hs : Scope.Settled site.scopes)
    (hp : (Stmt.ifElse condition thenBranch elseBranch).Proper)
    (hv : ∀ event ∈ (Stmt.ifElse condition thenBranch elseBranch).events site.context site.scopes,
      Accepted programs event)
    (hd : ∀ d ∈ (Stmt.ifElse condition thenBranch elseBranch).declarations isLocal,
      Declares programs d) :
    g.Mirrors programs w
      (WatchedRun.execute (fuel + 1) site (.ifElse condition thenBranch elseBranch))
      (executeBy g.find (fuel + 1)
        ((Stmt.ifElse condition thenBranch elseBranch).relabel g.labels)) id := by
  cases elseBranch with
  | none =>
    obtain ⟨hcondition, -, hthen⟩ := hp
    obtain ⟨hvc, hvt⟩ := List.forall_mem_append.mp hv
    refine (h.mirrors _ _ condition hr hcondition hvc).bind
      (h.safely _ _ condition hr.ready hcondition hvc) fun _ _ hadvances _ hn => ?_
    have hr' := hr.advances hadvances hn
    exact .ite (fun _ => hx.mirrors _ _ thenBranch isLocal hr' hs hthen hvt hd)
      fun _ => mirrors_pure hn rfl
  | some elseBranch =>
    obtain ⟨hcondition, ⟨hdt, hthen⟩, -, helse⟩ := hp
    obtain ⟨hvc, hvt, hve⟩ : _ ∧ _ ∧ _ := by
      simpa only [Stmt.events, List.forall_mem_append] using hv
    rw [Stmt.scopes_after _ _ _ hdt hthen] at hve
    obtain ⟨hdthen, hdelse⟩ := List.forall_mem_append.mp hd
    refine (h.mirrors _ _ condition hr hcondition hvc).bind
      (h.safely _ _ condition hr.ready hcondition hvc) fun _ _ hadvances _ hn => ?_
    have hr' := hr.advances hadvances hn
    refine .ite (fun _ => hx.mirrors _ _ thenBranch isLocal hr' hs hthen hvt hdthen) fun _ => ?_
    rw [Option.elim_some, Site.after_eq hdt hthen]
    exact hx.mirrors _ _ elseBranch isLocal hr' hs helse hve hdelse

lemma whileLoop_mirrors (h : g.EvaluatesAt programs fuel) (hx : g.ExecutesAt programs fuel)
    {condition : Expr} {body : Stmt} {isLocal : Bool} (hr : Placed programs site w)
    (hs : Scope.Settled site.scopes) (hp : (Stmt.whileLoop condition body).Proper)
    (hv : ∀ event ∈ (Stmt.whileLoop condition body).events site.context site.scopes,
      Accepted programs event)
    (hd : ∀ d ∈ (Stmt.whileLoop condition body).declarations isLocal, Declares programs d) :
    g.Mirrors programs w (WatchedRun.execute (fuel + 1) site (.whileLoop condition body))
      (executeBy g.find (fuel + 1) ((Stmt.whileLoop condition body).relabel g.labels)) id := by
  obtain ⟨hcondition, hdeclaration, hbody⟩ := hp
  obtain ⟨hvc, hvb⟩ := List.forall_mem_append.mp hv
  refine (h.mirrors _ _ condition hr hcondition hvc).bind
    (h.safely _ _ condition hr.ready hcondition hvc) fun _ _ hadvances _ hn => ?_
  have hr' := hr.advances hadvances hn
  refine .ite (fun _ => ?_) fun _ => mirrors_pure hn rfl
  refine (hx.mirrors _ _ body isLocal hr' hs hbody hvb hd).bind
    (hx.safely _ _ body hr'.ready hs hbody hvb) fun completion _ hadvances' hpost hn' => ?_
  cases completion with
  | normal =>
    obtain ⟨hholds, hsettled⟩ := hpost rfl
    have hr'' := hr'.after hadvances' hn' hholds hsettled
    rw [Site.after_eq hdeclaration hbody] at hr''
    exact hx.mirrors _ _ (.whileLoop condition body) isLocal hr'' hs
      ⟨hcondition, hdeclaration, hbody⟩ hv hd
  | returned value => exact mirrors_pure hn' rfl

lemma execute_mirrors (hg : g.Faithful programs) (h : g.EvaluatesAt programs fuel)
    (hx : g.ExecutesAt programs fuel) : g.ExecutesAt programs (fuel + 1) := by
  refine ⟨WatchedRun.execute_safe h.safely hx.safely, fun w site stated isLocal hr hs hp hv hd => ?_⟩
  cases stated with
  | expression value =>
    refine (h.mirrors _ _ value hr hp hv).bind (h.safely _ _ value hr.ready hp hv)
      fun _ _ _ _ hn => mirrors_pure hn rfl
  | print line value =>
    refine (h.mirrors _ _ value hr hp hv).bind (h.safely _ _ value hr.ready hp hv)
      fun value w' _ _ hn => mirrors_get ?_
    have htext : (g.machine w'.machine).textOf value = w'.machine.textOf value :=
      mapped.textOf (fun closure => by simp [Closure.relabel, Labels.title]) value
    rw [id, htext]
    have hprint : g.Mirrors programs w'
        (WatchedRun.lift (Run.print (w'.machine.textOf value) line))
        (Run.print (w'.machine.textOf value) (g.labels.line line)) id :=
      mirrors_lift (carries_print _ line) (hn.print _ line)
    exact Matches.bind hprint fun _ _ _ _ hrelated => matches_pure hrelated rfl
  | varDecl name initial => exact varDecl_mirrors hg h hr hs hp.1 hp.2 hv
  | functionDecl decl =>
    obtain ⟨htitle, hinside⟩ := List.forall_mem_cons.mp hd
    refine Matches.bind (declareFunction_mirrors hg hr hp (List.forall_mem_cons.mp hv).1 htitle hinside)
      fun _ _ _ _ hrelated => matches_pure hrelated rfl
  | classDecl decl =>
    obtain ⟨htitle, hinside⟩ := List.forall_mem_cons.mp hd
    obtain ⟨hdeclare, hevents⟩ := List.forall_mem_cons.mp hv
    refine Matches.bind (declareClass_mirrors hg hr hs hp hdeclare hevents htitle hinside)
      fun _ _ _ _ hrelated => matches_pure hrelated rfl
  | block body => exact block_mirrors hx hr hs hp hv hd
  | ifElse condition thenBranch elseBranch => exact ifElse_mirrors h hx hr hs hp hv hd
  | whileLoop condition body => exact whileLoop_mirrors h hx hr hs hp hv hd
  | ret keyword value =>
    obtain ⟨-, hvalue⟩ := List.forall_mem_cons.mp hv
    refine (option_mirrors h hr hp hvalue).bind
      (WatchedRun.option_safe h.safely hr.ready hp hvalue) fun _ _ _ _ hn => mirrors_pure hn rfl

lemma all_mirrors (hg : g.Faithful programs) (fuel : Nat) :
    g.EvaluatesAt programs fuel ∧ g.ExecutesAt programs fuel := by
  induction fuel with
  | zero =>
    obtain ⟨hevaluate, hexecute⟩ := WatchedRun.all_safe programs 0
    refine ⟨⟨hevaluate, fun _ _ value hr _ _ => ?_⟩, ⟨hexecute, fun _ _ stated _ hr _ _ _ _ => ?_⟩⟩
    · rw [evaluateBy_zero]
      exact matches_throw id ⟨rfl, hr.named⟩ rfl
    · rw [executeBy_zero]
      exact matches_throw id ⟨rfl, hr.named⟩ rfl
  | succ fuel ih => exact ⟨evaluate_mirrors hg ih.1 ih.2, execute_mirrors hg ih.1 ih.2⟩

lemma executeProgram_mirrors (hg : g.Faithful programs) (fuel : Nat) {program : Program}
    (hs : Sound programs w) (hr : Ruled programs w.machine.table) (hn : Named programs w)
    (hc : w.machine.current = .globals) (hp : Stmt.ProperAll program)
    (hv : ∀ event ∈ Program.events program, Accepted programs event)
    (hd : ∀ d ∈ Program.declarations program, Declares programs d) :
    g.Mirrors programs w (WatchedRun.executeProgram fuel .top program)
      (Program.executeBy g.find fuel (Stmt.relabelAll g.labels program)) id := by
  induction program generalizing w with
  | nil => exact mirrors_pure hn rfl
  | cons stated rest ih =>
    obtain ⟨hvs, hvr⟩ := List.forall_mem_append.mp hv
    obtain ⟨hds, hdr⟩ := List.forall_mem_append.mp hd
    rw [Stmt.scopes_after_top] at hvr
    have hsettled : Scope.Settled Site.top.scopes := by simp [Site.top, Scope.Settled]
    have hready : Placed programs .top w :=
      ⟨⟨hs, hr, Site.holds_top hc⟩, hn, by simp [Site.top, Frames.SpecialInPlace], .inl hsettled⟩
    obtain ⟨-, hx⟩ := all_mirrors hg fuel
    refine (hx.mirrors w .top stated false hready hsettled hp.1 hvs hds).bind
      (hx.safely w .top stated hready.ready hsettled hp.1 hvs) fun _ w' hadvances _ hn' => ?_
    rw [Site.after_top]
    exact ih hadvances.sound (hadvances.ruled hr) hn' (hadvances.current.trans hc) hp.2 hvr hdr

end Lox.Guise
