import Lox.Proofs.Watch.Calls

/-! Declarations of functions and classes are safe. -/

namespace Lox

lemma ClassDecl.mem_events_of_method {decl : ClassDecl} {type : ClassSite}
    (hsome : type.superFrame.isSome = decl.superclass.isSome) {method : Closure}
    (hm : method.decl ∈ decl.methods) {event : Event}
    (h : event ∈ method.decl.events (type.bound method).context (type.bound method).scopes) :
    event ∈ decl.events type.site.context type.site.scopes := by
  obtain ⟨name, _ | target, methods⟩ := decl <;> obtain ⟨site, _ | frame⟩ := type
  · exact FunctionDecl.mem_eventsMethods hm h
  · simp at hsome
  · simp at hsome
  · exact List.mem_cons_of_mem _ (List.mem_cons_of_mem _ (FunctionDecl.mem_eventsMethods hm h))

lemma ClassSite.stands_push {site : Site} {f : Frames}
    (hl : Laid f site.context.owner site.scopes site.frames) (hs : Scope.Settled site.scopes)
    {enclosing : FrameRef} (he : enclosing = site.frames.headD .globals) (parent : ClassRef) :
    ClassSite.Stands
      (f.push enclosing ((∅ : Bindings Value).insert Scope.superName (.classAt parent)))
      ⟨site, some f.next⟩ := by
  have hpushed : Frames.Follows none f (f.push enclosing
      ((∅ : Bindings Value).insert Scope.superName (.classAt parent))) := Frames.follows_push ..
  refine ⟨hl.follows hpushed, hs, ?_⟩
  rintro _ ⟨⟩
  rw [Frames.enclosing?_push, if_pos rfl, Frames.lookup?_push, if_pos rfl]
  exact ⟨congrArg some he, parent, by simp⟩

namespace WatchedRun

variable {programs : List Program} {free : Option FrameRef} {w : Watch} {site : Site}

/-- The function is made before its name is bound, but no step comes between. -/
lemma declareFunction_safe (hr : Ready programs site w) (hs : Scope.Settled site.scopes)
    {decl : FunctionDecl} (hp : decl.Proper)
    (hv : ∀ event ∈ decl.events { site.context with function := .function }
      (site.introducing decl.name).scopes, Accepted programs event) :
    Safe programs (some w.machine.current) w (declareFunction site decl) fun _ w' =>
      (site.introducing decl.name).Holds w'.machine := by
  obtain ⟨hname, -⟩ := FunctionDecl.proper_iff.mp hp
  have hholds := hr.holds.introducing hname (.functionAt ⟨w.machine.functions.size⟩)
  have hfollows : Frames.Follows (some w.machine.current) w.machine.frames
      (w.machine.frames.define w.machine.current decl.name.text
        (.functionAt ⟨w.machine.functions.size⟩)) := Frames.follows_define hname _
  have hdefined := hr.sound.steps (m := { w.machine with
    frames := w.machine.frames.define w.machine.current decl.name.text
      (.functionAt ⟨w.machine.functions.size⟩) }) ⟨hfollows, rfl, rfl, rfl, rfl⟩
  have hfits : Closure.Fits programs
      (w.machine.frames.define w.machine.current decl.name.text
        (.functionAt ⟨w.machine.functions.size⟩))
      ⟨decl, w.machine.current, false⟩ (site.ofFunction decl.name) :=
    ⟨hholds.laid, hs.introduce decl.name, hr.holds.current, hp, hv⟩
  exact ⟨⟨hfollows, rfl, rfl, hdefined.newFunction hfits⟩, fun _ _ => hholds.follows (.refl ..) rfl⟩

lemma makeClass_safe (hs : Sound programs w) {decl : ClassDecl} {superclass : Option ClassRef}
    {scope : FrameRef} {type : ClassSite} (ht : type.Stands w.machine.frames)
    (hm : ∀ method ∈ decl.methods,
      Closure.FitsClass programs ⟨method, scope, method.isInitializer⟩ type) :
    Safe programs free w (makeClass decl superclass scope type) fun _ w' =>
      w'.machine.frames = w.machine.frames ∧ w'.machine.current = w.machine.current := by
  refine ⟨⟨.refl free w.machine.frames, rfl, rfl, hs.newClass ⟨ht, fun name method hmethod => ?_⟩⟩,
    fun _ _ => ⟨rfl, rfl⟩⟩
  rcases Bindings.get?_insertAll_eq_some hmethod with hnone | hmem
  · simp at hnone
  · obtain ⟨given, hgiven, heq⟩ := List.mem_map.mp hmem
    rw [← (Prod.mk.inj heq).2]
    exact hm given hgiven

lemma boundClass_safe (hs : Sound programs w) {decl : ClassDecl} {superclass : Option ClassRef}
    {scope frame : FrameRef} {type : ClassSite} (ht : type.Stands w.machine.frames)
    (hm : ∀ method ∈ decl.methods,
      Closure.FitsClass programs ⟨method, scope, method.isInitializer⟩ type)
    (hn : Scope.IsPlain decl.name.text) (hb : w.machine.frames.binds frame decl.name.text = true) :
    Safe programs none w (makeClass decl superclass scope type >>= fun ref =>
      lift (Run.define frame decl.name.text (.classAt ref))) fun _ _ => True := by
  refine (makeClass_safe hs ht hm).bind fun ref w' hadvances ⟨hframes, _⟩ => ?_
  have hsteps : w'.machine.Steps none
      (outcome (Run.define frame decl.name.text (.classAt ref)) w'.machine).2 := by
    rw [← hframes] at hb
    exact ⟨Frames.follows_redefine hn hb _, rfl, rfl, rfl, rfl⟩
  exact (safe_lift hadvances.sound hsteps).weaken fun _ _ _ => trivial

lemma superclassOf_safe (hr : Ready programs site w) (hs : Scope.Settled site.scopes) {name : Name}
    {target : Reference} (hne : target.name.text ≠ name.text)
    (hv : Accepted programs
      (.visit ⟨.read target, site.context, (site.introducing name).scopes⟩)) :
    Safe programs none w (superclassOf (site.introducing name) target) fun _ _ => True := by
  have hagrees := hr.holds.agrees_superclass hs hr.sound.root hr.ruled hne hv
  exact Safe.noted hr.sound hagrees
    (safe_last (hr.sound.note hagrees) (Run.quiet_superclassOf target))

lemma superclass_safe (hr : Ready programs site w) (hs : Scope.Settled site.scopes)
    {decl : ClassDecl} (hv : ∀ event ∈ decl.events site.context (site.introducing decl.name).scopes,
      Accepted programs event) :
    Safe programs none w (decl.superclass.mapM (superclassOf (site.introducing decl.name)))
      fun superclass _ => superclass.isSome = decl.superclass.isSome := by
  obtain ⟨name, _ | target, methods⟩ := decl
  · exact safe_pure hr.sound rfl
  · obtain ⟨hinherit, hvisit, -⟩ : Accepted programs (.inherit name target) ∧
        Accepted programs (.visit ⟨.read target, site.context, (site.introducing name).scopes⟩) ∧
          _ := by
      simpa only [ClassDecl.events, List.forall_mem_cons] using hv
    have hne : target.name.text ≠ name.text := by
      simpa [Event.findings, Findings.violationIf_eq] using hr.ruled.clean _ hinherit
    change Safe programs none w (some <$> superclassOf (site.introducing name) target) _
    rw [← bind_pure_comp]
    exact (superclassOf_safe hr hs hne hvisit).bind fun _ w' hadvances _ =>
      safe_pure hadvances.sound rfl

/-- The class is made in a place where its name is in scope, and bound to nothing. -/
lemma finishClass_safe (hr : Ready programs site w) (hs : Scope.Settled site.scopes)
    {decl : ClassDecl} (hp : decl.Proper)
    (hb : w.machine.frames.binds w.machine.current decl.name.text = true)
    (hv : ∀ event ∈ decl.events site.context site.scopes, Accepted programs event)
    {superclass : Option ClassRef} (hsome : superclass.isSome = decl.superclass.isSome) :
    Safe programs none w (do
      let scope ← match superclass with
        | some ref => lift (Run.newFrame w.machine.current
            ((∅ : Bindings Value).insert Scope.superName (.classAt ref)))
        | none => pure w.machine.current
      let ref ← makeClass decl superclass scope ⟨site, superclass.map fun _ => scope⟩
      lift (Run.define w.machine.current decl.name.text (.classAt ref))) fun _ _ => True := by
  obtain ⟨hname, hmethods⟩ := ClassDecl.proper_iff.mp hp
  cases superclass with
  | none =>
    have hstands : ClassSite.Stands w.machine.frames ⟨site, none⟩ := ⟨hr.holds.laid, hs, nofun⟩
    refine boundClass_safe hr.sound hstands (fun method hm => ?_) hname hb
    exact ⟨hr.holds.current, hmethods method hm,
      fun event he => hv event (ClassDecl.mem_events_of_method hsome hm he)⟩
  | some ref =>
    have hstands := ClassSite.stands_push hr.holds.laid hs hr.holds.current ref
    have hpushed : Frames.Follows none w.machine.frames (w.machine.frames.push w.machine.current
        ((∅ : Bindings Value).insert Scope.superName (.classAt ref))) := Frames.follows_push ..
    refine safe_lift_bind hr.sound (Run.outcome_newFrame w.machine.current _ w.machine)
      ⟨hpushed, rfl, rfl, rfl, rfl⟩ fun hsound => ?_
    refine boundClass_safe hsound hstands (fun method hm => ?_) hname (hpushed.binds _ _ hb)
    exact ⟨rfl, hmethods method hm,
      fun event he => hv event (ClassDecl.mem_events_of_method hsome hm he)⟩

lemma declareClass_safe (hr : Ready programs site w) (hs : Scope.Settled site.scopes)
    {decl : ClassDecl} (hp : decl.Proper)
    (hv : ∀ event ∈ decl.events site.context (site.introducing decl.name).scopes,
      Accepted programs event) :
    Safe programs (some w.machine.current) w (declareClass site decl) fun _ w' =>
      (site.introducing decl.name).Holds w'.machine := by
  obtain ⟨hname, -⟩ := ClassDecl.proper_iff.mp hp
  refine (superclass_safe hr hs hv).remember.bind fun superclass w' _ ⟨hadvances, hsome⟩ => ?_
  have hr' := hr.advances hadvances
  rw [← hadvances.current]
  refine safe_lift_bind hr'.sound (Run.outcome_currentFrame w'.machine)
    ⟨.refl .., rfl, rfl, rfl, rfl⟩ fun _ => ?_
  refine safe_lift_bind hr'.sound (Run.outcome_define w'.machine.current decl.name.text .nil _)
    ⟨Frames.follows_define hname _, rfl, rfl, rfl, rfl⟩ fun hsound => ?_
  have hholds := hr'.holds.introducing hname .nil
  have hbinds : (w'.machine.frames.define w'.machine.current decl.name.text .nil).binds
      w'.machine.current decl.name.text = true :=
    (Frames.binds_define_iff _).mpr (.inr ⟨rfl, rfl, hr'.current_lt⟩)
  have hfinish := finishClass_safe ⟨hsound, hr'.ruled, hholds⟩ (hs.introduce decl.name) hp hbinds hv
    hsome
  exact hfinish.quietly.weaken fun _ _ hadvances' =>
    hholds.follows hadvances'.frames hadvances'.current

end WatchedRun

end Lox
