import Lox.Proofs.Guise.Calls

/-! Declarations do the same in a guise. -/

namespace Lox

lemma Frames.SpecialInPlace.declaring {f : Frames} {site : Site} {name : Name}
    (h : f.SpecialInPlace site.scopes site.frames) :
    f.SpecialInPlace (site.introducing name).scopes (site.introducing name).frames :=
  h.introduce

namespace Guise

variable {g : Guise} {programs : List Program} {w : Watch} {site : Site}

lemma Faithful.title (hg : g.Faithful programs) {name : Name} {isLocal : Bool}
    (hd : Declares programs ⟨name.text, isLocal, false⟩) : g.labels.name name.text = name.text :=
  hg.titles _ hd rfl

/-- The function is made before its name is bound, but no step comes between. -/
lemma declareFunction_mirrors (hg : g.Faithful programs) (hr : Placed programs site w)
    {decl : FunctionDecl} (hp : decl.Proper) {isLocal : Bool}
    (hv : Accepted programs (.declare decl.name site.scopes))
    (ht : Declares programs ⟨decl.name.text, isLocal, false⟩)
    (hd : ∀ d ∈ decl.declarations, Declares programs d) :
    g.Mirrors programs w (WatchedRun.declareFunction site decl)
      (Run.declareFunction (decl.relabel g.labels)) id := by
  obtain ⟨hname, -⟩ := FunctionDecl.proper_iff.mp hp
  have htells := hg.tells_declared hr.ready hv
  have hglobal := Placed.ancestor?_current hr.ready
  have hbeside := Placed.beside_current hr.ready hv
  refine mirrors_lift_bind carries_currentFrame (Run.outcome_currentFrame _) hr.named fun hn => ?_
  have hmade : g.Mirrors programs w
      (WatchedRun.newFunction ⟨decl, w.machine.current, false⟩ (site.ofFunction decl.name))
      (Run.newFunction ⟨decl.relabel g.labels, w.machine.current, false⟩) id :=
    mirrors_newFunction hn hr.clean.declaring hd
  refine Matches.bind hmade fun ref w' m' ho ⟨hm, hn'⟩ => ?_
  subst hm
  obtain ⟨-, rfl⟩ := Prod.mk.inj ho
  have htext : (decl.relabel g.labels).name.text = g.labels.name decl.name.text := by
    rw [FunctionDecl.name_relabel, hg.title ht]
    rfl
  rw [htext]
  exact mirrors_define hn' hname hv htells hglobal hbeside _

section Classes

variable {decl : ClassDecl} {type : ClassSite} {superclass : Option ClassRef} {scope : FrameRef}

lemma makeClass_mirrors (hn : Named programs w)
    (hclean : w.machine.frames.SpecialInPlace type.scopes type.frames)
    (hd : ∀ d ∈ decl.declarations, Declares programs d) :
    g.Mirrors programs w (WatchedRun.makeClass decl superclass scope type)
      (Run.makeClass (decl.relabel g.labels) superclass scope) id := by
  obtain ⟨hresult, hstates⟩ := carries_makeClass (g := g) (m := w.machine) decl superclass scope
  refine ⟨hresult, hstates, hn.newClass hclean fun name method hmethod => ?_⟩
  obtain ⟨_, _, methods⟩ := decl
  rcases Bindings.get?_insertAll_eq_some hmethod with hnone | hmem
  · simp at hnone
  · obtain ⟨given, hgiven, heq⟩ := List.mem_map.mp hmem
    rw [← (Prod.mk.inj heq).2]
    exact fun d hd' => hd d (FunctionDecl.mem_declarationsAll hgiven hd')

/-- The class is made where its name is bound to nothing yet, and bound to its name. -/
lemma boundClass_mirrors (hg : g.Faithful programs) (hn : Named programs w)
    (hclean : w.machine.frames.SpecialInPlace type.scopes type.frames)
    (hd : ∀ d ∈ decl.declarations, Declares programs d) (hname : Scope.IsPlain decl.name.text)
    (htitle : g.labels.name decl.name.text = decl.name.text) {frame : FrameRef}
    (hb : w.machine.frames.binds frame decl.name.text = true) :
    g.Mirrors programs w
      (WatchedRun.makeClass decl superclass scope type >>= fun ref =>
        WatchedRun.lift (Run.define frame decl.name.text (.classAt ref)))
      (Run.makeClass (decl.relabel g.labels) superclass scope >>= fun ref =>
        Run.define frame (decl.relabel g.labels).name.text (.classAt ref)) id := by
  refine Matches.bind (makeClass_mirrors hn hclean hd) fun ref w' m' ho ⟨hm, hn'⟩ => ?_
  subst hm
  obtain ⟨-, rfl⟩ := Prod.mk.inj ho
  have htext : (decl.relabel g.labels).name.text = g.labels.name decl.name.text := by
    rw [ClassDecl.name_relabel, htitle]
    rfl
  rw [htext]
  refine mirrors_lift (carries_define (hg.tells_bound hn' hb fun _ => htitle) rfl _) ?_
  exact hn'.redefine hname hb _

lemma superclass_mirrors (hg : g.Faithful programs) (hr : Placed programs site w)
    (hs : Scope.Settled site.scopes)
    (hv : ∀ event ∈ decl.events site.context (site.introducing decl.name).scopes,
      Accepted programs event) :
    g.Mirrors programs w (decl.superclass.mapM (WatchedRun.superclassOf (site.introducing decl.name)))
      ((decl.relabel g.labels).superclass.mapM (Run.superclassOfBy g.find)) id := by
  obtain ⟨name, _ | target, methods⟩ := decl
  · exact mirrors_pure hr.named rfl
  · obtain ⟨hinherit, hvisit, -⟩ : Accepted programs (.inherit name target) ∧
        Accepted programs (.visit ⟨.read target, site.context, (site.introducing name).scopes⟩) ∧
          _ := by
      simpa only [ClassDecl.events, List.forall_mem_cons] using hv
    have hne : target.name.text ≠ name.text := by
      simpa [Event.findings, Findings.violationIf_eq] using hr.ready.ruled.clean _ hinherit
    have hagrees := hr.ready.holds.agrees_superclass hs hr.ready.sound.root hr.ready.ruled hne hvisit
    have hfinds := hg.reads w (site.introducing name) (.read target) target hr.ready.sound
      hr.ready.ruled hr.named hr.clean.declaring hagrees (.inl rfl)
    have hsuperclass : g.Mirrors programs w (WatchedRun.superclassOf (site.introducing name) target)
        (Run.superclassOfBy g.find (g.labels.reference target)) id :=
      Mirrors.noted (mirrors_superclassOf (hr.named.note _ _) hfinds)
    exact hsuperclass.map fun _ => rfl

lemma finishClass_mirrors (hg : g.Faithful programs) (hr : Ready programs site w)
    (hn : Named programs w) (hclean : w.machine.frames.SpecialInPlace site.scopes site.frames)
    (hd : ∀ d ∈ decl.declarations, Declares programs d) (hname : Scope.IsPlain decl.name.text)
    (htitle : g.labels.name decl.name.text = decl.name.text)
    (hb : w.machine.frames.binds w.machine.current decl.name.text = true) :
    g.Mirrors programs w
      (do
        let scope ← match superclass with
          | some ref => WatchedRun.lift (Run.newFrame w.machine.current
              ((∅ : Bindings Value).insert Scope.superName (.classAt ref)))
          | none => pure w.machine.current
        let ref ← WatchedRun.makeClass decl superclass scope ⟨site, superclass.map fun _ => scope⟩
        WatchedRun.lift (Run.define w.machine.current decl.name.text (.classAt ref)))
      (do
        let scope ← match superclass with
          | some ref =>
            Run.newFrame w.machine.current
              ((∅ : Bindings Value).insert Scope.superName (.classAt ref))
          | none => pure w.machine.current
        let ref ← Run.makeClass (decl.relabel g.labels) superclass scope
        Run.define w.machine.current (decl.relabel g.labels).name.text (.classAt ref)) id := by
  cases superclass with
  | none =>
    have hsite : w.machine.frames.SpecialInPlace (ClassSite.mk site none).scopes
        (ClassSite.mk site none).frames := hclean
    exact boundClass_mirrors hg hn hsite hd hname htitle hb
  | some ref =>
    have hbindings : (∅ : Bindings Value).insert Scope.superName (.classAt ref) =
        Bindings.mapKeys g.labels.name
          ((∅ : Bindings Value).insert Scope.superName (.classAt ref)) := by
      rw [Bindings.mapKeys_insert (by simp [Bindings.Apart, Bindings.contains]),
        hg.special Scope.superName_not_plain, Bindings.mapKeys_empty]
    have hpushed : Frames.Follows none w.machine.frames (w.machine.frames.push w.machine.current
        ((∅ : Bindings Value).insert Scope.superName (.classAt ref))) := Frames.follows_push ..
    refine mirrors_lift_bind (carries_newFrame hr.sound.nonempty w.machine.current hbindings)
      (Run.outcome_newFrame ..) (hn.pushSpecial hr.current_lt Scope.superName_not_plain _)
      fun hn' => ?_
    have hsite : (w.machine.frames.push w.machine.current
        ((∅ : Bindings Value).insert Scope.superName (.classAt ref))).SpecialInPlace
          (ClassSite.mk site (some w.machine.frames.next)).scopes
          (ClassSite.mk site (some w.machine.frames.next)).frames := by
      refine (hpushed.specialInPlace hclean).cons (by simp [Frames.push, Frames.next])
        fun name _ hb' => ?_
      rw [Frames.binds, Frames.lookup?_push, if_pos rfl] at hb'
      rw [Scope.contains_single]
      simpa [Bindings.contains_insert, Bindings.contains] using hb'
    exact boundClass_mirrors hg hn' hsite hd hname htitle (hpushed.binds _ _ hb)

lemma declareClass_mirrors (hg : g.Faithful programs) (hr : Placed programs site w)
    (hs : Scope.Settled site.scopes) (hp : decl.Proper) {isLocal : Bool}
    (hv : Accepted programs (.declare decl.name site.scopes))
    (hv' : ∀ event ∈ decl.events site.context (site.introducing decl.name).scopes,
      Accepted programs event)
    (ht : Declares programs ⟨decl.name.text, isLocal, false⟩)
    (hd : ∀ d ∈ decl.declarations, Declares programs d) :
    g.Mirrors programs w (WatchedRun.declareClass site decl)
      (Run.declareClassBy g.find (decl.relabel g.labels)) id := by
  obtain ⟨hname, -⟩ := ClassDecl.proper_iff.mp hp
  have htitle := hg.title ht
  have htext : (decl.relabel g.labels).name.text = g.labels.name decl.name.text := by
    rw [ClassDecl.name_relabel, htitle]
    rfl
  have hsafe := WatchedRun.superclass_safe hr.ready hs hv'
  refine (superclass_mirrors hg hr hs hv').bind hsafe fun superclass w' hadvances _ hn => ?_
  have hr' := hr.advances hadvances hn
  refine mirrors_lift_bind carries_currentFrame (Run.outcome_currentFrame _) hn fun _ => ?_
  have hdefine := mirrors_define (g := g) hn hname hv (hg.tells_declared hr'.ready hv)
    (Placed.ancestor?_current hr'.ready) (Placed.beside_current hr'.ready hv) .nil
  rw [← htext] at hdefine
  refine Matches.bind hdefine fun _ w'' m'' ho ⟨hm, hn'⟩ => ?_
  subst hm
  obtain ⟨-, rfl⟩ := Prod.mk.inj ho
  have hfollows : Frames.Follows (some w'.machine.current) w'.machine.frames
      (w'.machine.frames.define w'.machine.current decl.name.text .nil) := Frames.follows_define hname _
  have hsound := hr'.ready.sound.steps (m := { w'.machine with
    frames := w'.machine.frames.define w'.machine.current decl.name.text .nil })
    ⟨hfollows, rfl, rfl, rfl, rfl⟩
  have hbinds : (w'.machine.frames.define w'.machine.current decl.name.text .nil).binds
      w'.machine.current decl.name.text = true :=
    (Frames.binds_define_iff _).mpr (.inr ⟨rfl, rfl, hr'.ready.current_lt⟩)
  exact finishClass_mirrors hg
    ⟨hsound, hr'.ready.ruled, hr'.ready.holds.introducing hname .nil⟩ hn'
    (hfollows.specialInPlace hr'.clean.declaring) hd hname htitle hbinds

end Classes

end Guise

end Lox
