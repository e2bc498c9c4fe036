import Lox.Proofs.Direct.Declarations

/-! Expressions and statements of direct runs beside those of watched ones. They go along if their parts
do. -/

namespace Lox.Direct

variable {programs : List Lox.Program} {fuel : Nat} {home : List FrameRef} {exact : Bool} {site : Site}
  {env : Env} {w : Watch} {s : State}

lemma ofResult_imitates (h : Tied home w s) (line : Nat) (result : Except RuntimeError.Cause Value) :
    Imitates home w s (WatchedRun.lift (Lox.Run.ofResult line result)) (Run.ofResult line result) := by
  cases result with
  | error cause => exact imitates_fail h cause line
  | ok value => exact imitates_pure h value

lemma setField_imitates (h : Tied home w s) (self : InstanceRef) (name : String) (value : Value) :
    Imitates home w s (WatchedRun.lift (Lox.Run.setField self name value))
      (Run.setField self name value) := by
  have hown : outcome (Run.setField self name value) s = (.ok (),
      { s with
        instances := w.machine.instances.modify self.index fun found =>
          { found with fields := found.fields.insert name value } }) := by
    rw [← h.instances]
    rfl
  exact imitates_lift rfl hown (List.prefix_refl _)
    (h.step (List.prefix_refl _) rfl rfl rfl rfl h.frames rfl h.output h.clock)

/-- How a value is printed depends on names of functions and classes alone. -/
lemma Tied.textOf_eq (h : Tied home w s) (hs : Sound programs w) (value : Value) :
    s.textOf value = w.machine.textOf value := by
  have hclass (ref : ClassRef) : s.className ref = w.machine.className ref := by
    rw [State.className, Machine.className, Machine.class?]
    rcases h.class_cases hs ref.index with ⟨ht, ho⟩ | ⟨type, own, site, ht, ho, -, hstands⟩
    · rw [ht, ho]
      rfl
    · rw [ht, ho]
      exact hstands.name.symm
  cases value with
  | nil | number | text | native => rfl
  | boolean value => cases value <;> rfl
  | functionAt ref =>
    rw [State.textOf, Machine.textOf, Machine.function?]
    rcases h.function_cases hs ref.index with ⟨hc, ho⟩ | ⟨closure, own, site, hc, ho, -, hstands⟩
    · rw [hc, ho]
      rfl
    · rw [hc, ho, Option.elim_some, Option.elim_some, hstands.decl, FunctionDecl.desugar_name]
  | classAt ref => exact hclass ref
  | instanceAt ref =>
    simp only [State.textOf, Machine.textOf, Machine.instance?, h.instances, hclass]

lemma print_imitates (h : Tied home w s) (text : String) (line : Nat) :
    Imitates home w s (WatchedRun.lift (Lox.Run.print text line)) (Run.print text line) := by
  have hown : outcome (Run.print text line) s =
      (if w.machine.output.fits (text ++ "\n").toUTF8 then .ok ()
        else .error (.error ⟨.outputFull, line⟩),
        { s with output := w.machine.output.write (text ++ "\n").toUTF8 }) := by
    simp only [Run.print, outcome_bind, outcome_get, outcome_modify, h.output]
    cases w.machine.output.fits (text ++ "\n").toUTF8 <;> rfl
  exact imitates_lift (Run.outcome_print text line _) hown (List.prefix_refl _)
    (h.step (List.prefix_refl _) rfl rfl rfl rfl h.frames h.instances rfl h.clock)

lemma Standing.evaluates (hr : Standing programs home exact site env w) {value : Expr}
    (hp : value.Proper)
    (hv : ∀ event ∈ value.events site.context site.scopes, Accepted programs event) :
    WatchedRun.Safe programs none w (WatchedRun.evaluate fuel site value) fun _ _ => True :=
  (WatchedRun.all_safe programs fuel).1 w site value hr.ready hp hv

lemma evaluate_imitates (h : EvaluatesDirectly programs fuel) (hx : ExecutesDirectly programs fuel) :
    EvaluatesDirectly programs (fuel + 1) := by
  intro home exact w s site env node hr hp hv htied
  have hvisit := hv _ (node.visit_mem_events site.context site.scopes)
  have hagrees := hr.ready.holds.agrees hr.ready.sound.root hr.ready.ruled hvisit hp
  have hr' : Standing programs home exact site env
      { w with journal.moments := ⟨node, site, w.machine⟩ :: w.journal.moments } :=
    ⟨⟨hr.ready.sound.note hagrees, hr.ready.ruled, hr.ready.holds⟩, hr.follows⟩
  refine .noted ?_
  have htied' := htied.journal (⟨node, site, w.machine⟩ :: w.journal.moments) w.journal.assignments
  cases node with
  | literal value => exact imitates_pure htied' _
  | grouping inner =>
    exact h _ _ _ _ _ _ inner hr' hp (fun event he => hv event (List.mem_append_left _ he)) htied'
  | unary op line operand =>
    have hvo : ∀ event ∈ operand.events site.context site.scopes, Accepted programs event :=
      fun event he => hv event (List.mem_append_left _ he)
    exact (h _ _ _ _ _ _ operand hr' hp hvo htied').andThen fun _ _ _ _ _ htied'' =>
      ofResult_imitates htied'' _ _
  | binary op line left right =>
    obtain ⟨hvl, hvr, -⟩ : _ ∧ _ ∧ _ := by
      simpa only [Expr.events, List.forall_mem_append] using hv
    refine (h _ _ _ _ _ _ left hr' hp.1 hvl htied').bind (hr'.evaluates hp.1 hvl)
      fun _ _ _ _ hle ha _ htied'' => ?_
    exact (h _ _ _ _ _ _ right (hr'.advances ha hle) hp.2 hvr htied'').andThen
      fun _ _ _ _ _ htied''' => ofResult_imitates htied''' _ _
  | logical op line left right =>
    obtain ⟨hvl, hvr, -⟩ : _ ∧ _ ∧ _ := by
      simpa only [Expr.events, List.forall_mem_append] using hv
    refine (h _ _ _ _ _ _ left hr' hp.1 hvl htied').bind (hr'.evaluates hp.1 hvl)
      fun _ _ _ _ hle ha _ htied'' => ?_
    exact .ite (fun _ => imitates_pure htied'' _) fun _ =>
      h _ _ _ _ _ _ right (hr'.advances ha hle) hp.2 hvr htied''
  | read target =>
    exact hr'.read_imitates htied' (hr.ready.ruled.entries _ hvisit target.id target.name.text rfl)
  | this keyword =>
    have hname : keyword.name.text = Scope.thisName := hp
    refine hr'.read_imitates htied' ?_
    rw [hname]
    exact hr.ready.ruled.entries _ hvisit keyword.id Scope.thisName rfl
  | assign target value =>
    have hvv : ∀ event ∈ value.events site.context site.scopes, Accepted programs event :=
      fun event he => hv event (List.mem_append_left _ he)
    refine (h _ _ _ _ _ _ value hr' hp.2 hvv htied').bind (hr'.evaluates hp.2 hvv)
      fun given home' w' s' hle ha _ htied'' => ?_
    have hr'' := hr'.advances ha hle
    have hassigns := hr''.ready.holds.assigns hr''.ready.sound.root hr''.ready.ruled hvisit
    have hnoted : Standing programs home' exact site env
        { w' with
          journal.assignments := ⟨.assign target value, site, w'.machine⟩ :: w'.journal.assignments } :=
      ⟨⟨hr''.ready.sound.noteAssignment hassigns, hr''.ready.ruled, hr''.ready.holds⟩, hr''.follows⟩
    refine .notedAssignment ?_
    exact (hnoted.assign_imitates (htied''.journal w'.journal.moments _)
      (hr''.ready.ruled.entries _ hvisit target.id target.name.text rfl) given).yield
  | call callee arguments line =>
    obtain ⟨hvc, hva, -⟩ : _ ∧ _ ∧ _ := by
      simpa only [Expr.events, List.forall_mem_append] using hv
    refine (h _ _ _ _ _ _ callee hr' hp.1 hvc htied').bind (hr'.evaluates hp.1 hvc)
      fun called _ _ _ hle ha _ htied'' => ?_
    have hr'' := hr'.advances ha hle
    refine (evaluateEach_imitates h hr'' hp.2 hva htied'').bind
      (WatchedRun.evaluateEach_safe (WatchedRun.all_safe programs fuel).1 hr''.ready hp.2 hva)
      fun given _ _ _ hle' ha' _ htied''' => ?_
    have hr''' := hr''.advances ha' hle'
    exact callValue_imitates hx htied''' hr'''.ready.sound hr'''.ready.ruled called given line
  | get object property =>
    have hvo : ∀ event ∈ object.events site.context site.scopes, Accepted programs event :=
      fun event he => hv event (List.mem_append_left _ he)
    exact (h _ _ _ _ _ _ object hr' hp hvo htied').bind (hr'.evaluates hp hvo)
      fun value _ _ _ _ ha _ htied'' => getProperty_imitates htied'' ha.sound value property
  | set object property value =>
    obtain ⟨hvv, hvo, -⟩ : _ ∧ _ ∧ _ := by
      simpa only [Expr.events, List.forall_mem_append] using hv
    refine (h _ _ _ _ _ _ object hr' hp.1 hvo htied').bind (hr'.evaluates hp.1 hvo)
      fun self _ _ _ hle ha _ htied'' => ?_
    cases self with
    | instanceAt self =>
      exact (h _ _ _ _ _ _ value (hr'.advances ha hle) hp.2 hvv htied'').andThen
        fun given _ _ _ _ htied''' => (setField_imitates htied''' self property.text given).yield
    | nil | boolean | number | text | native | functionAt | classAt => exact imitates_fail htied'' _ _
  | super keyword method => exact hr'.getSuper_imitates htied' hvisit

lemma option_imitates (h : EvaluatesDirectly programs fuel) {value : Option Expr}
    (hr : Standing programs home exact site env w) (hp : Expr.ProperOption value)
    (hv : ∀ event ∈ Expr.eventsOption site.context site.scopes value, Accepted programs event)
    (htied : Tied home w s) :
    Imitates home w s (value.elim (pure .nil) (WatchedRun.evaluate fuel site))
      (value.elim (pure .nil) (evaluate fuel env)) := by
  cases value with
  | none => exact imitates_pure htied _
  | some value => exact h _ _ _ _ _ _ value hr (hp value rfl) hv htied

lemma varDecl_imitates (h : EvaluatesDirectly programs fuel) {name : Name} {initial : Option Expr}
    (hr : Standing programs home true site env w) (hn : Scope.IsPlain name.text)
    (hp : Expr.ProperOption initial)
    (hv : ∀ event ∈ (Lox.Stmt.varDecl name initial).events site.context site.scopes,
      Accepted programs event)
    (htied : Tied home w s) :
    Imitates home w s (WatchedRun.execute (fuel + 1) site (.varDecl name initial))
      (execute (fuel + 1) env (.varDecl name initial)) := by
  obtain ⟨hdeclare, hinitial⟩ : Accepted programs (.declare name site.scopes) ∧ _ :=
    List.forall_mem_cons.mp hv
  have hinside : Standing programs home true (site.declaring name) (env.declare name) w :=
    ⟨⟨hr.ready.sound, hr.ready.ruled,
      hr.ready.holds.declaring hn (hr.ready.ruled.clean _ hdeclare)⟩, hr.follows.declaring name⟩
  have hsafe := WatchedRun.option_safe (WatchedRun.all_safe programs fuel).1 hinside.ready hp hinitial
  refine (option_imitates h hinside hp hinitial htied).bind hsafe
    fun value home' w' s' hle ha _ htied' => ?_
  have hcurrent : home'[env.innermost.index]? = some w'.machine.current := by
    rw [ha.current, hr.ready.holds.current]
    exact home_mono hle (hr.follows.innermost htied.frames.globals)
  refine imitates_left (Run.outcome_currentFrame _) ?_
  exact (imitates_define htied' hcurrent name.text value).yield

lemma Standing.inBlock (hr : Standing programs home exact site env w) (hs : Scope.Settled site.scopes)
    {home' : List FrameRef} (hle : home <+: home') {ref : FrameRef}
    (href : home'[ref.index]? = some w.machine.frames.next) :
    Standing programs home' true (site.inBlock w.machine.frames.next) (⟨[], ref⟩ :: env)
      { w with machine :=
        { w.machine with
          frames := w.machine.frames.push w.machine.current ∅
          current := w.machine.frames.next } } :=
  ⟨hr.ready.inBlock hs, .level (hr.follows.mono hle) (fun name => by simp [Bindings.contains]) href⟩

lemma block_imitates (hx : ExecutesDirectly programs fuel) {body : List Stmt}
    (hr : Standing programs home exact site env w) (hs : Scope.Settled site.scopes)
    (hp : Lox.Stmt.ProperAll (Stmt.desugarAll body)) (hf : Stmt.FormedAll body)
    (hv : ∀ event ∈ Lox.Stmt.eventsAll site.context (∅ :: site.scopes) (Stmt.desugarAll body),
      Accepted programs event)
    (htied : Tied home w s) :
    Imitates home w s (WatchedRun.execute (fuel + 1) site (.block (Stmt.desugarAll body)))
      (execute (fuel + 1) env (.block body)) := by
  refine imitates_left (Run.outcome_currentFrame _) (imitates_newFrame htied fun htied' href => ?_)
  have hinside := hr.inBlock hs (List.prefix_append ..) href
  exact imitates_within (sequence_imitates hx hinside (Scope.settled_empty hs) hp hf hv
    (htied'.setCurrent _))

lemma ifElse_imitates (h : EvaluatesDirectly programs fuel) (hx : ExecutesDirectly programs fuel)
    {condition : Expr} {thenBranch : Stmt} {elseBranch : Option Stmt}
    (hr : Standing programs home exact site env w) (hs : Scope.Settled site.scopes)
    (hp : (Stmt.ifElse condition thenBranch elseBranch).desugar.Proper)
    (hf : (Stmt.ifElse condition thenBranch elseBranch).Formed)
    (hv : ∀ event ∈ (Stmt.ifElse condition thenBranch elseBranch).desugar.events site.context
      site.scopes, Accepted programs event)
    (htied : Tied home w s) :
    Imitates home w s
      (WatchedRun.execute (fuel + 1) site (Stmt.ifElse condition thenBranch elseBranch).desugar)
      (execute (fuel + 1) env (.ifElse condition thenBranch elseBranch)) := by
  cases elseBranch with
  | none =>
    obtain ⟨hcondition, hdeclaration, hthen⟩ := hp
    obtain ⟨hvc, hvt⟩ := List.forall_mem_append.mp hv
    refine (h _ _ _ _ _ _ condition hr hcondition hvc htied).bind (hr.evaluates hcondition hvc)
      fun _ _ _ _ hle ha _ htied' => ?_
    exact .ite (fun _ => hx _ _ _ _ _ _ thenBranch (hr.advances ha hle) hs hthen hf hvt
      (by simp [hdeclaration]) htied') fun _ => imitates_pure htied' _
  | some elseBranch =>
    obtain ⟨hcondition, ⟨hdt, hthen⟩, hde, helse⟩ := hp
    obtain ⟨hvc, hvt, hve⟩ : _ ∧ _ ∧ _ := by
      simpa only [Stmt.desugar, Lox.Stmt.events, List.forall_mem_append] using hv
    rw [Lox.Stmt.scopes_after _ _ _ hdt hthen] at hve
    refine (h _ _ _ _ _ _ condition hr hcondition hvc htied).bind (hr.evaluates hcondition hvc)
      fun _ _ _ _ hle ha _ htied' => ?_
    have hr' := hr.advances ha hle
    refine .ite (fun _ => hx _ _ _ _ _ _ thenBranch hr' hs hthen hf.1 hvt (by simp [hdt]) htied')
      fun _ => ?_
    rw [Option.elim_some, Option.elim_some, Site.after_eq hdt hthen]
    exact hx _ _ _ _ _ _ elseBranch hr' hs helse hf.2 hve (by simp [hde]) htied'

/-- A loop goes along if its rounds do. Behind a round the place is that of the loop. -/
lemma rounds_imitate (h : EvaluatesDirectly programs fuel) {condition : Expr} {body : Lox.Stmt}
    {round again : Run Completion} (hr : Standing programs home exact site env w)
    (hs : Scope.Settled site.scopes) (hp : (Lox.Stmt.whileLoop condition body).Proper)
    (hv : ∀ event ∈ (Lox.Stmt.whileLoop condition body).events site.context site.scopes,
      Accepted programs event)
    (hround : ∀ home' w' s', home <+: home' → Standing programs home' exact site env w' →
      Tied home' w' s' → Imitates home' w' s' (WatchedRun.execute fuel site body) round)
    (hagain : ∀ home' w' s', home <+: home' → Standing programs home' exact site env w' →
      Tied home' w' s' →
      Imitates home' w' s' (WatchedRun.execute fuel site (.whileLoop condition body)) again)
    (htied : Tied home w s) :
    Imitates home w s (WatchedRun.execute (fuel + 1) site (.whileLoop condition body)) (do
      if (← evaluate fuel env condition).isTruthy then
        match ← round with
        | .normal => again
        | .returned value => return .returned value
      else return .normal) := by
  obtain ⟨hcondition, hdeclaration, hbody⟩ := hp
  obtain ⟨hvc, hvb⟩ := List.forall_mem_append.mp hv
  refine (h _ _ _ _ _ _ condition hr hcondition hvc htied).bind (hr.evaluates hcondition hvc)
    fun _ home' w' s' hle ha _ htied' => ?_
  have hr' := hr.advances ha hle
  refine .ite (fun _ => ?_) fun _ => imitates_pure htied' _
  have hsafe := (WatchedRun.all_safe programs fuel).2 w' site body hr'.ready hs hbody hvb
  refine (hround home' w' s' hle hr' htied').bind hsafe
    fun completion home'' w'' s'' hle' ha' hpost htied'' => ?_
  cases completion with
  | normal =>
    obtain ⟨hholds, -⟩ := hpost rfl
    rw [Site.after_eq hdeclaration hbody] at hholds
    exact hagain home'' w'' s'' (hle.trans hle') (hr'.resumes ha' hle' hholds) htied''
  | returned value => exact imitates_pure htied'' _

end Lox.Direct
