import Lox.Proofs.Direct.Calls

/-! Names in direct runs beside watched ones: where they are read and assigned, and how they are
declared. -/

namespace Lox

/-- The instance is found one scope nearer than the superclass. -/
lemma Laid.findIdx?_super {f : Frames} {scopes : List Scope} {frames : List FrameRef}
    (h : Laid f .withSuperclass scopes frames) :
    ∃ distance, scopes.findIdx? (·.contains Scope.superName) = some (distance + 1) ∧
      scopes.findIdx? (·.contains Scope.thisName) = some distance := by
  generalize howner : EnclosingClass.withSuperclass = owner at h
  induction h with
  | top | method => simp at howner
  | block _ _ hplain _ ih =>
    obtain ⟨distance, hsuper, hthis⟩ := ih howner
    refine ⟨distance + 1, ?_, ?_⟩
    · rw [List.findIdx?_cons, if_neg (mt (hplain Scope.superName) Scope.superName_not_plain), hsuper]
      rfl
    · rw [List.findIdx?_cons, if_neg (mt (hplain Scope.thisName) Scope.thisName_not_plain), hthis]
      rfl
  | submethod =>
    refine ⟨0, ?_, ?_⟩ <;>
      simp [List.findIdx?_cons, Scope.contains_single, Scope.thisName, Scope.superName]

namespace Direct

variable {programs : List Lox.Program} {home : List FrameRef} {exact : Bool} {site : Site} {env : Env}
  {w : Watch} {s : State}

section Names

variable {target : Reference}

lemma outcome_read (env : Env) (name : Name) (s : State) :
    outcome (Run.read env name) s = ((s.find? env name.text).elim
      (.error (.error ⟨.undefinedVariable name.text, name.line⟩)) .ok, s) := by
  simp only [Run.read, outcome_bind, outcome_get]
  cases s.find? env name.text <;> rfl

lemma read_imitates (h : Tied home w s)
    (hfound : s.find? env target.name.text = w.machine.read? target) :
    Imitates home w s (WatchedRun.lift (Lox.Run.read target)) (Run.read env target.name) := by
  have hown := outcome_read env target.name s
  rw [hfound] at hown
  exact imitates_lift (Run.outcome_read target w.machine) hown (List.prefix_refl _) h

lemma Standing.read_imitates (hr : Standing programs home exact site env w) (h : Tied home w s)
    (hentry : w.machine.table[target.id]? = site.scopes.findIdx? (·.contains target.name.text)) :
    Imitates home w s (WatchedRun.lift (Lox.Run.read target)) (Run.read env target.name) :=
  Direct.read_imitates h
    (h.find?_eq hr.ready.sound.root hr.follows (hr.ready.holds.outward hr.ready.sound.root) hentry)

lemma Standing.assign_imitates (hr : Standing programs home exact site env w) (h : Tied home w s)
    (hentry : w.machine.table[target.id]? = site.scopes.findIdx? (·.contains target.name.text))
    (value : Value) :
    Imitates home w s (WatchedRun.lift (Lox.Run.assign target value))
      (Run.assign env target.name value) := by
  obtain ⟨frame, hhome, hbinder⟩ := h.binder?_eq hr.ready.sound.root hr.follows
    (hr.ready.holds.outward hr.ready.sound.root) hentry
  have hassign := Run.outcome_assign target value w.machine
  rw [hbinder] at hassign
  have hfind : s.find? env target.name.text = w.machine.frames.lookup? frame target.name.text :=
    h.lookup?_eq hhome _
  cases hlookup : w.machine.frames.lookup? frame target.name.text with
  | none =>
    rw [if_neg (by simp [Frames.binds, hlookup])] at hassign
    refine imitates_lift hassign ?_ (List.prefix_refl _) h
    simp only [Run.assign, outcome_bind, outcome_read, hfind, hlookup, Option.elim_none]
  | some old =>
    rw [if_pos (by simp [Frames.binds, hlookup])] at hassign
    refine imitates_lift hassign ?_ (List.prefix_refl _)
      (h.withFrames (List.prefix_refl _) (h.frames.define hhome target.name.text value))
    simp only [Run.assign, outcome_bind, outcome_read, hfind, hlookup, Option.elim_some, Run.define,
      outcome_modify]

lemma Standing.super?_eq (hr : Standing programs home exact site env w) (h : Tied home w s)
    {keyword : Reference} {method : Name}
    (hv : Accepted programs (.visit ⟨.super keyword method, site.context, site.scopes⟩)) :
    s.super? env = w.machine.super? keyword := by
  have houtward := hr.ready.holds.outward hr.ready.sound.root
  obtain ⟨distance, hsuper, hthis⟩ :=
    (hr.ready.holds.withSuperclass hr.ready.ruled hv).findIdx?_super
  have hentry : w.machine.table[keyword.id]? = some (distance + 1) :=
    (hr.ready.ruled.entries _ hv keyword.id Scope.superName rfl).trans hsuper
  simp only [State.super?, Machine.super?, hentry, h.find?_at hr.follows houtward hsuper,
    h.find?_at hr.follows houtward hthis]
  all_goals rfl

lemma Standing.getSuper_imitates (hr : Standing programs home exact site env w) (h : Tied home w s)
    {keyword : Reference} {method : Name}
    (hv : Accepted programs (.visit ⟨.super keyword method, site.context, site.scopes⟩)) :
    Imitates home w s (WatchedRun.getSuper keyword method)
      (Run.getSuper env keyword.name method) := by
  refine imitates_get ?_
  rw [hr.super?_eq h hv]
  refine imitates_require h (rel_refl _) ?_
  rintro ⟨superclass, self⟩ _ - rfl
  refine imitates_require h (h.method? hr.ready.sound superclass method.text)
    fun found own hfound hbelongs => ?_
  obtain ⟨hstands, hfits⟩ := hr.ready.sound.fits_methodSite hfound
  exact boundValue_imitates h hr.ready.sound hstands hfits hbelongs self

end Names

lemma declareFunction_imitates (hr : Standing programs home true site env w) (h : Tied home w s)
    {decl : FunctionDecl} (hf : decl.Formed) :
    Imitates home w s (WatchedRun.declareFunction site decl.desugar) (Run.declareFunction env decl) := by
  have hcurrent : home[env.innermost.index]? = some w.machine.current := by
    rw [hr.ready.holds.current]
    exact hr.follows.innermost h.frames.globals
  have hstands : Closure.Stands home ⟨decl, env.declare decl.name, false⟩
      ⟨decl.desugar, w.machine.current, false⟩ (site.ofFunction decl.desugar.name) := by
    refine ⟨rfl, hf, rfl, ?_, nofun⟩
    rw [FunctionDecl.desugar_name]
    exact hr.follows.introducing decl.name
  refine imitates_left (Run.outcome_currentFrame _) ?_
  refine (newFunction_imitates h hr.ready.sound hstands).andThen fun ref home' w' s' hle h' => ?_
  rw [FunctionDecl.desugar_name]
  exact imitates_define h' (home_mono hle hcurrent) _ _

section Classes

variable {decl : ClassDecl}

lemma superclassOf_imitates (hr : Standing programs home true site env w) (h : Tied home w s)
    {name : Name} {target : Reference}
    (hv : Accepted programs (.visit ⟨.read target, site.context, (site.introducing name).scopes⟩)) :
    Imitates home w s (WatchedRun.superclassOf (site.introducing name) target)
      (Run.superclassOf (env.declare name) target.name) := by
  have hfound := h.find?_eq hr.ready.sound.root (hr.follows.introducing name)
    (hr.ready.holds.outward hr.ready.sound.root)
    (hr.ready.ruled.entries _ hv target.id target.name.text rfl)
  have hnoted := h.journal (⟨.read target, site.introducing name, w.machine⟩ :: w.journal.moments)
    w.journal.assignments
  rw [WatchedRun.superclassOf, Lox.Run.superclassOf, lift_bind]
  refine Imitates.noted ((read_imitates hnoted hfound).andThen fun value _ _ _ _ h' => ?_)
  cases value with
  | classAt ref => exact imitates_pure h' ref
  | nil | boolean | number | text | native | functionAt | instanceAt => exact imitates_fail h' _ _

lemma superclass_imitates (hr : Standing programs home true site env w) (h : Tied home w s)
    (hv : ∀ event ∈ decl.desugar.events site.context (site.introducing decl.name).scopes,
      Accepted programs event) :
    Imitates home w s (decl.superclass.mapM (WatchedRun.superclassOf (site.introducing decl.name)))
      (decl.superclass.mapM fun target => Run.superclassOf (env.declare decl.name) target.name) := by
  obtain ⟨name, _ | target, methods⟩ := decl
  · exact imitates_pure h none
  · obtain ⟨-, hvisit, -⟩ : Accepted programs (.inherit name target) ∧
        Accepted programs (.visit ⟨.read target, site.context, (site.introducing name).scopes⟩) ∧
          _ := by
      simpa only [ClassDecl.desugar, ClassDecl.events, List.forall_mem_cons] using hv
    exact Matches.map (superclassOf_imitates hr h hvisit) fun _ => rfl

lemma makeClass_imitates (h : Tied home w s) (hs : Sound programs w) (hf : decl.Formed)
    {superclass : Option ClassRef} {scope : FrameRef} {type : ClassSite}
    (hfollows : env.Follows home true type.scopes type.frames) :
    Imitates home w s (WatchedRun.makeClass decl.desugar superclass scope type)
      (Run.makeClass decl superclass env) := by
  obtain ⟨name, parent, methods⟩ := decl
  refine ⟨congrArg (fun size => Except.ok (ClassRef.mk size)) h.sizeClasses, home, List.prefix_refl _,
    h.newClass hs ⟨rfl, rfl, ?_⟩⟩
  simp only [ClassDecl.desugar, FunctionDecl.desugarAll_eq_map, List.map_map]
  refine rel_insertAll (fun method hmethod => ?_) fun _ => .none
  exact ⟨congrArg Name.text method.desugar_name, rfl, ClassDecl.formed_iff.mp hf method hmethod,
    method.desugar_isInitializer, hfollows⟩

lemma boundClass_imitates (h : Tied home w s) (hs : Sound programs w) (hf : decl.Formed)
    (type : ClassSite) {superclass : Option ClassRef} {scope frame ref : FrameRef}
    (hfollows : env.Follows home true type.scopes type.frames)
    (hcurrent : home[ref.index]? = some frame) :
    Imitates home w s
      (WatchedRun.makeClass decl.desugar superclass scope type >>= fun made =>
        WatchedRun.lift (Lox.Run.define frame decl.name.text (.classAt made)))
      (Run.makeClass decl superclass env >>= fun made =>
        Run.define ref decl.name.text (.classAt made)) := by
  refine (makeClass_imitates h hs hf hfollows).andThen fun made _ _ _ hle h' => ?_
  exact imitates_define h' (home_mono hle hcurrent) _ _

lemma finishClass_imitates (h : Tied home w s) (hs : Sound programs w) (hf : decl.Formed)
    (hfollows : env.Follows home true site.scopes site.frames) {frame ref : FrameRef}
    (hcurrent : home[ref.index]? = some frame) (superclass : Option ClassRef) :
    Imitates home w s
      (do
        let scope ← match superclass with
          | some ref => WatchedRun.lift (Lox.Run.newFrame frame
              ((∅ : Bindings Value).insert Scope.superName (.classAt ref)))
          | none => pure frame
        let ref ← WatchedRun.makeClass decl.desugar superclass scope
          ⟨site, superclass.map fun _ => scope⟩
        WatchedRun.lift (Lox.Run.define frame decl.name.text (.classAt ref)))
      (do
        let inside ← match superclass with
          | some ref => do
            let frame ← Run.newFrame ((∅ : Bindings Value).insert Scope.superName (.classAt ref))
            pure (⟨[Scope.superName], frame⟩ :: env)
          | none => pure env
        let made ← Run.makeClass decl superclass inside
        Run.define ref decl.name.text (.classAt made)) := by
  cases superclass with
  | none => exact boundClass_imitates h hs hf ⟨site, none⟩ hfollows hcurrent
  | some parent =>
    simp only [pure_bind]
    refine imitates_newFrame h fun h' hnew => ?_
    have hle : home <+: home ++ [w.machine.frames.next] := List.prefix_append ..
    have hinside : Env.Follows (home ++ [w.machine.frames.next]) true
        (ClassSite.scopes ⟨site, some w.machine.frames.next⟩)
        (ClassSite.frames ⟨site, some w.machine.frames.next⟩)
        (⟨[Scope.superName], ⟨s.frames.size⟩⟩ :: env) :=
      .level (hfollows.mono hle) (fun name => by simp [Scope.contains_single]) hnew
    exact boundClass_imitates h' (hs.newFrame ..) hf ⟨site, some w.machine.frames.next⟩ hinside
      (home_mono hle hcurrent)

lemma declareClass_imitates (hr : Standing programs home true site env w)
    (hs : Scope.Settled site.scopes) (h : Tied home w s) (hp : decl.desugar.Proper) (hf : decl.Formed)
    (hv : ∀ event ∈ decl.desugar.events site.context (site.introducing decl.name).scopes,
      Accepted programs event) :
    Imitates home w s (WatchedRun.declareClass site decl.desugar) (Run.declareClass env decl) := by
  obtain ⟨hname, -⟩ := ClassDecl.proper_iff.mp hp
  have hsafe := WatchedRun.superclass_safe hr.ready hs (by rwa [decl.desugar_name])
  rw [WatchedRun.declareClass, Run.declareClass]
  rw [decl.desugar_name] at hname hsafe ⊢
  rw [decl.desugar_superclass] at hsafe ⊢
  refine (superclass_imitates hr h hv).bind hsafe fun superclass home' w' s' hle ha _ h' => ?_
  have hr' := hr.advances ha hle
  have hcurrent : home'[env.innermost.index]? = some w'.machine.current := by
    rw [hr'.ready.holds.current]
    exact hr'.follows.innermost h'.frames.globals
  refine imitates_left (Run.outcome_currentFrame _) ?_
  have hfollows : Frames.Follows (some w'.machine.current) w'.machine.frames
      (w'.machine.frames.define w'.machine.current decl.name.text .nil) := Frames.follows_define hname _
  have hsound := hr'.ready.sound.steps (m := { w'.machine with
    frames := w'.machine.frames.define w'.machine.current decl.name.text .nil })
    ⟨hfollows, rfl, rfl, rfl, rfl⟩
  have hown : outcome (Run.define env.innermost decl.name.text .nil) s' = (.ok (),
      { s' with frames := s'.frames.modify env.innermost.index (·.insert decl.name.text .nil) }) := rfl
  refine imitates_lift_bind (Run.outcome_define ..) hown (List.prefix_refl _) ?_
  have hdefined := h'.withFrames (List.prefix_refl _)
    (h'.frames.define hcurrent decl.name.text .nil)
  exact finishClass_imitates hdefined hsound hf (hr'.follows.introducing decl.name) hcurrent superclass

end Classes

end Direct

end Lox
