import Lox.Proofs.Watch.Declarations

/-! Watched runs are safe, by induction on the fuel: whatever a program does, and however it ends, all
moments agree. -/

namespace Lox

lemma Site.after_eq {site : Site} {stated : Stmt} (hd : stated.isDeclaration = false)
    (hp : stated.Proper) : site.after stated = site := by
  rw [Site.after, Stmt.scopes_after site.context site.scopes stated hd hp]

lemma Site.after_top (stated : Stmt) : Site.top.after stated = Site.top := by
  rw [Site.after, Site.top, Stmt.scopes_after_top]

namespace WatchedRun

variable {programs : List Program} {fuel : Nat} {w : Watch} {site : Site}

lemma evaluate_safe (h : EvaluatesSafely programs (evaluate fuel))
    (hx : ExecutesSafely programs (execute fuel)) :
    EvaluatesSafely programs (evaluate (fuel + 1)) := by
  intro w site node hr hp hv
  have hagrees := hr.holds.agrees hr.sound.root hr.ruled
    (hv _ (node.visit_mem_events site.context site.scopes)) hp
  have hr' : Ready programs site
      { w with journal.moments := ⟨node, site, w.machine⟩ :: w.journal.moments } :=
    ⟨hr.sound.note hagrees, hr.ruled, hr.holds⟩
  cases node with
  | literal value => exact Safe.noted hr.sound hagrees (safe_pure hr'.sound trivial)
  | grouping inner =>
    exact Safe.noted hr.sound hagrees
      (h _ _ inner hr' hp fun event he => hv event (List.mem_append_left _ he))
  | unary op line operand =>
    refine Safe.noted hr.sound hagrees ?_
    have hoperand := h _ _ operand hr' hp fun event he => hv event (List.mem_append_left _ he)
    exact hoperand.bind fun _ _ hadvances _ => safe_last hadvances.sound (Run.quiet_ofResult _ _)
  | binary op line left right =>
    refine Safe.noted hr.sound hagrees ?_
    have hleft := h _ _ _ hr' hp.1 fun event he => hv event (List.mem_append_left _ he)
    refine hleft.bind fun _ _ hadvances _ => ?_
    have hright := h _ _ _ (hr'.advances hadvances) hp.2 fun event he =>
      hv event (List.mem_append_right _ (List.mem_append_left _ he))
    exact hright.bind fun _ _ hadvances' _ => safe_last hadvances'.sound (Run.quiet_ofResult _ _)
  | logical op line left right =>
    refine Safe.noted hr.sound hagrees ?_
    have hleft := h _ _ _ hr' hp.1 fun event he => hv event (List.mem_append_left _ he)
    refine hleft.bind fun value _ hadvances _ => ?_
    split
    · exact safe_pure hadvances.sound trivial
    · exact h _ _ _ (hr'.advances hadvances) hp.2 fun event he =>
        hv event (List.mem_append_right _ (List.mem_append_left _ he))
  | read target | this target =>
    exact Safe.noted hr.sound hagrees (safe_last hr'.sound (Run.quiet_read target))
  | assign target value =>
    refine Safe.noted hr.sound hagrees ?_
    have hvalue := h _ _ _ hr' hp.2 fun event he => hv event (List.mem_append_left _ he)
    refine hvalue.bind fun given w' hadvances _ => ?_
    have hr'' := hr'.advances hadvances
    have hassigns := hr''.holds.assigns hr''.sound.root hr''.ruled
      (hv _ (Expr.visit_mem_events site.context site.scopes (.assign target value)))
    refine Safe.notedAssignment hadvances.sound hassigns ?_
    exact (safe_last (hadvances.sound.noteAssignment hassigns) (Run.quiet_assign hp.1 given)).bind
      fun _ _ hadvances' _ => safe_pure hadvances'.sound trivial
  | call callee arguments line =>
    refine Safe.noted hr.sound hagrees ?_
    have hcallee := h _ _ _ hr' hp.1 fun event he => hv event (List.mem_append_left _ he)
    refine hcallee.bind fun called _ hadvances _ => ?_
    have hr'' := hr'.advances hadvances
    have hgiven := evaluateEach_safe h hr'' hp.2 fun event he =>
      hv event (List.mem_append_right _ (List.mem_append_left _ he))
    exact hgiven.bind fun given _ hadvances' _ =>
      callValue_safe hx hadvances'.sound (hr''.advances hadvances').ruled called given line
  | get object property =>
    refine Safe.noted hr.sound hagrees ?_
    have hobject := h _ _ object hr' hp fun event he => hv event (List.mem_append_left _ he)
    exact hobject.bind fun value _ hadvances _ => getProperty_safe hadvances.sound value property
  | set object property value =>
    refine Safe.noted hr.sound hagrees ?_
    have hobject := h _ _ _ hr' hp.1 fun event he =>
      hv event (List.mem_append_right _ (List.mem_append_left _ he))
    refine hobject.bind fun self _ hadvances _ => ?_
    cases self with
    | instanceAt self =>
      have hvalue := h _ _ _ (hr'.advances hadvances) hp.2 fun event he =>
        hv event (List.mem_append_left _ he)
      refine hvalue.bind fun given _ hadvances' _ => ?_
      exact (safe_last hadvances'.sound (Run.quiet_setField self property.text given)).bind
        fun _ _ hadvances'' _ => safe_pure hadvances''.sound trivial
    | nil | boolean | number | text | native | functionAt | classAt =>
      exact safe_last hadvances.sound (Run.quiet_fail _ _)
  | super keyword method =>
    exact Safe.noted hr.sound hagrees (getSuper_safe hr'.sound keyword method)

lemma Safe.stays {x : WatchedRun Completion} {stated : Stmt} (hr : Ready programs site w)
    (hs : Scope.Settled site.scopes) (hd : stated.isDeclaration = false) (hp : stated.Proper)
    (h : Safe programs none w x fun _ _ => True) :
    Safe programs (some w.machine.current) w x fun completion w' => completion = .normal →
      (site.after stated).Holds w'.machine ∧ Scope.Settled (site.after stated).scopes := by
  rw [Site.after_eq hd hp]
  exact h.quietly.weaken fun _ _ hadvances _ => ⟨(hr.advances hadvances).holds, hs⟩

lemma option_safe (h : EvaluatesSafely programs (evaluate fuel)) {value : Option Expr}
    (hr : Ready programs site w) (hp : Expr.ProperOption value)
    (hv : ∀ event ∈ Expr.eventsOption site.context site.scopes value, Accepted programs event) :
    Safe programs none w (value.elim (pure .nil) (evaluate fuel site)) fun _ _ => True := by
  cases value with
  | none => exact safe_pure hr.sound trivial
  | some value => exact h _ _ _ hr (hp value rfl) hv

lemma block_safe (hx : ExecutesSafely programs (execute fuel)) {body : List Stmt}
    (hr : Ready programs site w) (hs : Scope.Settled site.scopes) (hp : Stmt.ProperAll body)
    (hv : ∀ event ∈ Stmt.eventsAll site.context (∅ :: site.scopes) body, Accepted programs event) :
    Safe programs none w (execute (fuel + 1) site (.block body)) fun _ _ => True := by
  refine safe_lift_bind hr.sound (Run.outcome_currentFrame w.machine)
    ⟨.refl .., rfl, rfl, rfl, rfl⟩ fun _ => ?_
  refine safe_newFrame_bind hr.sound fun _ => ?_
  exact safe_within (sequence_safe hx (hr.inBlock hs) (Scope.settled_empty hs) hp hv)

lemma varDecl_safe (h : EvaluatesSafely programs (evaluate fuel)) {name : Name}
    {initial : Option Expr} (hr : Ready programs site w) (hn : Scope.IsPlain name.text)
    (hp : Expr.ProperOption initial)
    (hv : ∀ event ∈ (Stmt.varDecl name initial).events site.context site.scopes,
      Accepted programs event) :
    Safe programs (some w.machine.current) w (execute (fuel + 1) site (.varDecl name initial))
      fun _ w' => (site.introducing name).Holds w'.machine := by
  obtain ⟨hdeclare, hinitial⟩ : Accepted programs (.declare name site.scopes) ∧ _ :=
    List.forall_mem_cons.mp hv
  have hready : Ready programs (site.declaring name) w :=
    ⟨hr.sound, hr.ruled, hr.holds.declaring hn (hr.ruled.clean _ hdeclare)⟩
  refine (option_safe h hready hp hinitial).quietly.bind
    fun value w' _ hadvances => ?_
  have hr' := hr.advances hadvances
  rw [← hadvances.current]
  refine safe_lift_bind hr'.sound (Run.outcome_currentFrame w'.machine)
    ⟨.refl .., rfl, rfl, rfl, rfl⟩ fun _ => ?_
  refine safe_lift_bind hr'.sound (Run.outcome_define w'.machine.current name.text value _)
    ⟨Frames.follows_define hn _, rfl, rfl, rfl, rfl⟩ fun hsound => ?_
  exact safe_pure hsound (hr'.holds.introducing hn value)

lemma ifElse_safe (h : EvaluatesSafely programs (evaluate fuel))
    (hx : ExecutesSafely programs (execute fuel)) {condition : Expr} {thenBranch : Stmt}
    {elseBranch : Option Stmt} (hr : Ready programs site w) (hs : Scope.Settled site.scopes)
    (hp : (Stmt.ifElse condition thenBranch elseBranch).Proper)
    (hv : ∀ event ∈ (Stmt.ifElse condition thenBranch elseBranch).events site.context site.scopes,
      Accepted programs event) :
    Safe programs (some w.machine.current) w
      (execute (fuel + 1) site (.ifElse condition thenBranch elseBranch)) fun completion w' =>
        completion = .normal →
          (site.after (.ifElse condition thenBranch elseBranch)).Holds w'.machine ∧
            Scope.Settled (site.after (.ifElse condition thenBranch elseBranch)).scopes := by
  rw [Site.after_eq rfl hp]
  -- A branch is executed at the place of the whole statement, and leaves it so.
  have hbranch {branch : Stmt} (hd : branch.isDeclaration = false) (hp : branch.Proper) {w : Watch}
      (hr : Ready programs site w) (hv : ∀ event ∈ branch.events site.context site.scopes,
        Accepted programs event) :
      Safe programs (some w.machine.current) w (execute fuel site branch) fun completion w' =>
        completion = .normal → site.Holds w'.machine ∧ Scope.Settled site.scopes := by
    have hsafe := hx w site branch hr hs hp hv
    rwa [Site.after_eq hd hp] at hsafe
  cases elseBranch with
  | none =>
    obtain ⟨hcondition, hd, hthen⟩ := hp
    obtain ⟨hvc, hvt⟩ := List.forall_mem_append.mp hv
    refine (h _ _ condition hr hcondition hvc).quietly.bind
      fun given w' _ hadvances => ?_
    have hr' := hr.advances hadvances
    rw [← hadvances.current]
    split
    · exact hbranch hd hthen hr' hvt
    · exact safe_pure hadvances.sound fun _ => ⟨hr'.holds, hs⟩
  | some elseBranch =>
    obtain ⟨hcondition, ⟨hd, hthen⟩, hd', helse⟩ := hp
    obtain ⟨hvc, hvt, hve⟩ : _ ∧ _ ∧ _ := by
      simpa only [Stmt.events, List.forall_mem_append] using hv
    rw [Stmt.scopes_after _ _ _ hd hthen] at hve
    refine (h _ _ condition hr hcondition hvc).quietly.bind
      fun given w' _ hadvances => ?_
    have hr' := hr.advances hadvances
    rw [← hadvances.current]
    split
    · exact hbranch hd hthen hr' hvt
    · rw [Option.elim_some, Site.after_eq hd hthen]
      exact hbranch hd' helse hr' hve

lemma execute_safe (h : EvaluatesSafely programs (evaluate fuel))
    (hx : ExecutesSafely programs (execute fuel)) :
    ExecutesSafely programs (execute (fuel + 1)) := by
  intro w site stated hr hs hp hv
  cases stated with
  | expression value =>
    refine Safe.stays hr hs rfl hp ?_
    exact (h _ _ _ hr hp hv).bind fun _ _ hadvances _ => safe_pure hadvances.sound trivial
  | print line value =>
    refine Safe.stays hr hs rfl hp ?_
    refine (h _ _ _ hr hp hv).bind fun _ _ hadvances _ => safe_get ?_
    exact (safe_last hadvances.sound (Run.quiet_print _ _)).bind fun _ _ hadvances' _ =>
      safe_pure hadvances'.sound trivial
  | varDecl name initial =>
    refine (varDecl_safe h hr hp.1 hp.2 hv).weaken fun _ _ hholds _ => ?_
    exact ⟨hholds, hs.introduce name⟩
  | functionDecl decl =>
    have hdecl := declareFunction_safe hr hs hp (List.forall_mem_cons.mp hv).2
    exact hdecl.bind fun _ _ hadvances hholds =>
      safe_pure hadvances.sound fun _ => ⟨hholds, hs.introduce decl.name⟩
  | classDecl decl =>
    have hdecl := declareClass_safe hr hs hp (List.forall_mem_cons.mp hv).2
    exact hdecl.bind fun _ _ hadvances hholds =>
      safe_pure hadvances.sound fun _ => ⟨hholds, hs.introduce decl.name⟩
  | block body => exact Safe.stays hr hs rfl hp (block_safe hx hr hs hp hv)
  | ifElse condition thenBranch elseBranch => exact ifElse_safe h hx hr hs hp hv
  | whileLoop condition body =>
    have hcondition := h _ _ _ hr hp.1 fun event he => hv event (List.mem_append_left _ he)
    refine hcondition.quietly.bind fun given w' _ hadvances => ?_
    have hr' := hr.advances hadvances
    rw [← hadvances.current]
    split
    · have hbody := hx _ _ _ hr' hs hp.2.2 fun event he => hv event (List.mem_append_right _ he)
      refine hbody.bind fun completion w'' hadvances' hpost => ?_
      cases completion with
      | normal =>
        rw [Site.after_eq hp.2.1 hp.2.2] at hpost
        rw [← hadvances'.current]
        exact hx _ _ _ (hadvances'.ready hr'.ruled (hpost rfl).1) hs hp hv
      | returned value => exact safe_pure hadvances'.sound nofun
    · rw [Site.after_eq rfl hp]
      exact safe_pure hadvances.sound fun _ => ⟨hr'.holds, hs⟩
  | ret keyword value =>
    refine Safe.stays hr hs rfl hp ?_
    exact (option_safe h hr hp (List.forall_mem_cons.mp hv).2).bind fun _ _ hadvances _ =>
      safe_pure hadvances.sound trivial

lemma all_safe (programs : List Program) (fuel : Nat) :
    EvaluatesSafely programs (evaluate fuel) ∧ ExecutesSafely programs (execute fuel) := by
  induction fuel with
  | zero =>
    exact ⟨fun _ _ _ hr _ _ => safe_throw hr.sound .outOfFuel,
      fun _ _ _ hr _ _ _ => safe_throw hr.sound .outOfFuel⟩
  | succ fuel ih => exact ⟨evaluate_safe ih.1 ih.2, execute_safe ih.1 ih.2⟩

lemma executeProgram_safe (fuel : Nat) {program : Program} (hs : Sound programs w)
    (hr : Ruled programs w.machine.table) (hc : w.machine.current = .globals)
    (hp : Stmt.ProperAll program)
    (hv : ∀ event ∈ Program.events program, Accepted programs event) :
    Safe programs (some .globals) w (executeProgram fuel .top program) fun _ _ => True := by
  induction program generalizing w with
  | nil => exact safe_pure hs trivial
  | cons stated rest ih =>
    obtain ⟨hvs, hvr⟩ := List.forall_mem_append.mp hv
    rw [Stmt.scopes_after_top] at hvr
    have hready : Ready programs .top w := ⟨hs, hr, Site.holds_top hc⟩
    have hfirst := (all_safe programs fuel).2 w .top stated hready (by simp [Site.top, Scope.Settled])
      hp.1 hvs
    rw [hc] at hfirst
    refine hfirst.bind fun _ w' hadvances _ => ?_
    rw [Site.after_top]
    exact ih hadvances.sound (hadvances.ruled hr) (hadvances.current.trans hc) hp.2 hvr

end WatchedRun

end Lox
