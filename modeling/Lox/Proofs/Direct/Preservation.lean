import Lox.Proofs.Direct.Statements

/-! Direct runs go along with watched ones, by induction on the fuel. To the machine a round of a loop
with an increment is a block, for which it makes a frame that the direct run has no use for. -/

namespace Lox.Direct

variable {programs : List Lox.Program} {fuel : Nat} {home : List FrameRef} {exact : Bool} {site : Site}
  {env : Env} {w : Watch} {s : State}

/-- With so much fuel the rounds of loops go directly as their blocks do under watch, at any place. -/
def RoundsDirectly (programs : List Lox.Program) (fuel : Nat) : Prop :=
  ∀ home exact w s site env (body : Stmt) step, Standing programs home exact site env w →
    Scope.Settled site.scopes → body.desugar.isDeclaration = false → body.Formed →
    (Lox.Stmt.block [body.desugar, .expression step]).Proper →
    (∀ event ∈ (Lox.Stmt.block [body.desugar, .expression step]).events site.context site.scopes,
      Accepted programs event) → Tied home w s →
    Imitates home w s (WatchedRun.execute fuel site (.block [body.desugar, .expression step]))
      (executeRound fuel env body step)

lemma sequence_single (execute : Site → Lox.Stmt → WatchedRun Completion) (site : Site)
    (stated : Lox.Stmt) : WatchedRun.sequence execute site [stated] = execute site stated := by
  refine (bind_congr fun completion => ?_).trans (bind_pure _)
  cases completion <;> rfl

/-- The increment is at the place of the loop, since the body declares nothing there. -/
lemma executeRound_imitates (hx : ExecutesDirectly programs fuel) :
    RoundsDirectly programs (fuel + 1) := by
  intro home exact w s site env body step hr hs hd hf hp hv htied
  obtain ⟨hbody, hstep, -⟩ := hp
  obtain ⟨hvb, hvs⟩ := List.forall_mem_append.mp hv
  rw [Lox.Stmt.scopes_after _ _ _ hd hbody] at hvs
  refine imitates_left (Run.outcome_currentFrame _)
    (imitates_left (Run.outcome_newFrame ..) (imitates_within ?_))
  have htied' := (htied.withFrames (List.prefix_refl _)
    (htied.frames.extra w.machine.current)).setCurrent w.machine.frames.next
  have hinside : Standing programs home false (site.inBlock w.machine.frames.next) env
      { w with machine :=
        { w.machine with
          frames := w.machine.frames.push w.machine.current ∅
          current := w.machine.frames.next } } := ⟨hr.ready.inBlock hs, .extra hr.follows⟩
  have hsettled := Scope.settled_empty hs
  have hsafe := (WatchedRun.all_safe programs fuel).2 _ _ _ hinside.ready hsettled hbody hvb
  refine (hx _ _ _ _ _ _ body hinside hsettled hbody hf hvb (by simp [hd]) htied').bind hsafe
    fun completion home' w' s' hle ha hpost htied'' => ?_
  cases completion with
  | normal =>
    obtain ⟨hholds, -⟩ := hpost rfl
    rw [Site.after_eq hd hbody] at hholds
    have hinside' := hinside.resumes ha hle hholds
    rw [Site.after_eq hd hbody, sequence_single]
    exact hx _ _ _ _ _ _ (.expression step) hinside' hsettled hstep trivial
      (fun event he => hvs event (List.mem_append_left _ he)) nofun htied''
  | returned value => exact imitates_pure htied'' _

lemma forLoop_imitates (h : EvaluatesDirectly programs fuel) (hx : ExecutesDirectly programs fuel)
    (hround : RoundsDirectly programs fuel) {condition increment : Option Expr} {body : Stmt}
    (hr : Standing programs home exact site env w) (hs : Scope.Settled site.scopes)
    (hp : (Stmt.forLoop none condition increment body).desugar.Proper)
    (hf : (Stmt.forLoop none condition increment body).Formed)
    (hv : ∀ event ∈ (Stmt.forLoop none condition increment body).desugar.events site.context
      site.scopes, Accepted programs event)
    (htied : Tied home w s) :
    Imitates home w s
      (WatchedRun.execute (fuel + 1) site (Stmt.forLoop none condition increment body).desugar)
      (execute (fuel + 1) env (.forLoop none condition increment body)) := by
  have hagain (home' : List FrameRef) (w' : Watch) (s' : State) (_ : home <+: home')
      (hr' : Standing programs home' exact site env w') (htied' : Tied home' w' s') :
      Imitates home' w' s'
        (WatchedRun.execute fuel site (Stmt.forLoop none condition increment body).desugar)
        (execute fuel env (.forLoop none condition increment body)) :=
    hx _ _ _ _ _ _ (.forLoop none condition increment body) hr' hs hp hf hv nofun htied'
  obtain ⟨hd, hfb⟩ := hf
  cases increment with
  | none =>
    have hbody : body.desugar.Proper := hp.2.2
    have hvb := (List.forall_mem_append.mp hv).2
    exact rounds_imitate h hr hs hp hv (fun _ _ _ _ hr' htied' =>
      hx _ _ _ _ _ _ body hr' hs hbody hfb hvb (by simp [hd]) htied') hagain htied
  | some step =>
    have hvb := (List.forall_mem_append.mp hv).2
    exact rounds_imitate h hr hs hp hv (fun _ _ _ _ hr' htied' =>
      hround _ _ _ _ _ _ body step hr' hs hd hfb hp.2.2 hvb htied') hagain htied

/-- The rest of a loop stands in the scope that its initializer has. -/
lemma initialized_imitates (hx : ExecutesDirectly programs fuel) {condition increment : Option Expr}
    {first body : Stmt} (hr : Standing programs home exact site env w)
    (hs : Scope.Settled site.scopes)
    (hp : (Stmt.forLoop (some first) condition increment body).desugar.Proper)
    (hf : (Stmt.forLoop (some first) condition increment body).Formed)
    (hv : ∀ event ∈ (Stmt.forLoop (some first) condition increment body).desugar.events site.context
      site.scopes, Accepted programs event)
    (htied : Tied home w s) :
    Imitates home w s
      (WatchedRun.execute (fuel + 1) site (Stmt.forLoop (some first) condition increment body).desugar)
      (execute (fuel + 1) env (.forLoop (some first) condition increment body)) := by
  obtain ⟨hfirst, hloop, -⟩ := hp
  obtain ⟨hff, hfl⟩ := hf
  obtain ⟨hvf, hvl⟩ := List.forall_mem_append.mp hv
  refine imitates_left (Run.outcome_currentFrame _) (imitates_newFrame htied fun htied' href => ?_)
  have hinside := hr.inBlock hs (List.prefix_append ..) href
  have hsettled := Scope.settled_empty hs
  have hsafe := (WatchedRun.all_safe programs fuel).2 _ _ _ hinside.ready hsettled hfirst hvf
  refine imitates_within ((hx _ _ _ _ _ _ first hinside hsettled hfirst hff hvf (fun _ => rfl)
    (htied'.setCurrent _)).bind hsafe fun completion home' w' s' hle ha hpost htied'' => ?_)
  cases completion with
  | normal =>
    obtain ⟨hholds, hsettled'⟩ := hpost rfl
    have hinside' := hinside.after ha hle hfirst (fun _ => rfl) hholds
    rw [sequence_single]
    exact hx _ _ _ _ _ _ (.forLoop none condition increment body) hinside' hsettled' hloop hfl
      (fun event he => hvl event (List.mem_append_left _ he)) nofun htied''
  | returned value => exact imitates_pure htied'' _

lemma execute_imitates (h : EvaluatesDirectly programs fuel) (hx : ExecutesDirectly programs fuel)
    (hround : RoundsDirectly programs fuel) : ExecutesDirectly programs (fuel + 1) := by
  intro home exact w s site env stated hr hs hp hf hv hexact htied
  cases stated with
  | expression value => exact (h _ _ _ _ _ _ value hr hp hv htied).yield
  | print line value =>
    refine (h _ _ _ _ _ _ value hr hp hv htied).bind (hr.evaluates hp hv)
      fun value _ _ _ _ ha _ htied' => imitates_get ?_
    rw [htied'.textOf_eq ha.sound]
    exact (print_imitates htied' _ line).yield
  | varDecl name initial =>
    obtain rfl := hexact rfl
    exact varDecl_imitates h hr hp.1 hp.2 hv htied
  | functionDecl decl =>
    obtain rfl := hexact rfl
    exact (declareFunction_imitates hr htied hf).yield
  | classDecl decl =>
    obtain rfl := hexact rfl
    obtain ⟨-, hvd⟩ := List.forall_mem_cons.mp hv
    rw [decl.desugar_name] at hvd
    exact (declareClass_imitates hr hs htied hp hf hvd).yield
  | block body => exact block_imitates hx hr hs hp hf hv htied
  | ifElse condition thenBranch elseBranch => exact ifElse_imitates h hx hr hs hp hf hv htied
  | whileLoop condition body =>
    refine rounds_imitate h hr hs hp hv (fun _ _ _ _ hr' htied' => ?_)
      (fun _ _ _ _ hr' htied' => ?_) htied
    · exact hx _ _ _ _ _ _ body hr' hs hp.2.2 hf (List.forall_mem_append.mp hv).2
        (by simp [hp.2.1]) htied'
    · exact hx _ _ _ _ _ _ (.whileLoop condition body) hr' hs hp hf hv nofun htied'
  | forLoop initial condition increment body =>
    cases initial with
    | none => exact forLoop_imitates h hx hround hr hs hp hf hv htied
    | some first => exact initialized_imitates hx hr hs hp hf hv htied
  | ret keyword value =>
    exact (option_imitates h hr hp (List.forall_mem_cons.mp hv).2 htied).yield

lemma all_imitate (programs : List Lox.Program) (fuel : Nat) :
    EvaluatesDirectly programs fuel ∧ ExecutesDirectly programs fuel ∧ RoundsDirectly programs fuel := by
  induction fuel with
  | zero =>
    exact ⟨fun _ _ _ _ _ _ _ _ _ _ htied => imitates_throw htied .outOfFuel,
      fun _ _ _ _ _ _ _ _ _ _ _ _ _ htied => imitates_throw htied .outOfFuel,
      fun _ _ _ _ _ _ _ _ _ _ _ _ _ _ htied => imitates_throw htied .outOfFuel⟩
  | succ fuel ih =>
    obtain ⟨h, hx, hround⟩ := ih
    exact ⟨evaluate_imitates h hx, execute_imitates h hx hround, executeRound_imitates hx⟩

lemma executeProgram_imitates (fuel : Nat) {program : Program} (hs : Sound programs w)
    (hr : Ruled programs w.machine.table) (hc : w.machine.current = .globals)
    (hp : Lox.Stmt.ProperAll (Stmt.desugarAll program)) (hf : Stmt.FormedAll program)
    (hv : ∀ event ∈ Lox.Program.events (Stmt.desugarAll program), Accepted programs event)
    (htied : Tied home w s) :
    Imitates home w s (WatchedRun.executeProgram fuel .top (Stmt.desugarAll program))
      (Program.execute fuel program) := by
  induction program generalizing home w s with
  | nil => exact imitates_pure htied _
  | cons stated rest ih =>
    obtain ⟨hvs, hvr⟩ := List.forall_mem_append.mp hv
    rw [Lox.Stmt.scopes_after_top] at hvr
    have hsettled : Scope.Settled Site.top.scopes := by simp [Site.top, Scope.Settled]
    have hready : Ready programs .top w := ⟨hs, hr, Site.holds_top hc⟩
    have hfirst := (all_imitate programs fuel).2.1 home true w s .top [] stated ⟨hready, .top⟩ hsettled
      hp.1 hf.1 hvs (fun _ => rfl) htied
    have hsafe := (WatchedRun.all_safe programs fuel).2 w .top stated.desugar hready hsettled hp.1 hvs
    refine hfirst.bind hsafe fun _ home' w' s' _ ha _ htied' => ?_
    rw [Site.after_top]
    exact ih ha.sound (ha.ruled hr) (ha.current.trans hc) hp.2 hf.2 hvr htied'

end Lox.Direct
