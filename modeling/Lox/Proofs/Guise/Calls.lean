import Lox.Proofs.Guise.Mirror

/-! Calls do the same in a guise if the statements that they execute do. -/

namespace Lox

lemma Placed.after {programs : List Program} {site : Site} {w w' : Watch} {stated : Stmt}
    {free : Option FrameRef} (h : Placed programs site w) (ha : Advances programs free w w')
    (hn : Named programs w') (hholds : (site.after stated).Holds w'.machine)
    (hsettled : Scope.Settled (site.after stated).scopes) :
    Placed programs (site.after stated) w' where
  ready := ha.ready h.ready.ruled hholds
  named := hn
  clean := (ha.frames.specialInPlace h.clean).after stated
  pending := .inl hsettled

namespace Guise

variable {α β : Type} {g : Guise} {programs : List Program} {w : Watch} {site : Site}

/-- Evaluation does the same in the guise, at any place and of proper expressions to which resolution
came. -/
structure EvaluatesAlike (g : Guise) (programs : List Program)
    (run : Site → Expr → WatchedRun Value) (run' : Expr → Run Value) : Prop where
  safely : WatchedRun.EvaluatesSafely programs run
  mirrors : ∀ w site value, Placed programs site w → value.Proper →
    (∀ event ∈ value.events site.context site.scopes, Accepted programs event) →
    g.Mirrors programs w (run site value) (run' (value.relabel g.labels)) id

/-- Execution does the same in the guise, of statements whose declarations are those of a program. -/
structure ExecutesAlike (g : Guise) (programs : List Program)
    (run : Site → Stmt → WatchedRun Completion) (run' : Stmt → Run Completion) : Prop where
  safely : WatchedRun.ExecutesSafely programs run
  mirrors : ∀ w site stated isLocal, Placed programs site w → Scope.Settled site.scopes →
    stated.Proper →
    (∀ event ∈ stated.events site.context site.scopes, Accepted programs event) →
    (∀ d ∈ stated.declarations isLocal, Declares programs d) →
    g.Mirrors programs w (run site stated) (run' (stated.relabel g.labels)) id

lemma sequence_mirrors {run : Site → Stmt → WatchedRun Completion} {run' : Stmt → Run Completion}
    (h : g.ExecutesAlike programs run run') {body : List Stmt} {isLocal : Bool}
    (hr : Placed programs site w) (hs : Scope.Settled site.scopes) (hp : Stmt.ProperAll body)
    (hv : ∀ event ∈ Stmt.eventsAll site.context site.scopes body, Accepted programs event)
    (hd : ∀ d ∈ Stmt.declarationsAll isLocal body, Declares programs d) :
    g.Mirrors programs w (WatchedRun.sequence run site body)
      (Run.sequence run' (Stmt.relabelAll g.labels body)) id := by
  induction body generalizing w site with
  | nil => exact mirrors_pure hr.named rfl
  | cons stated rest ih =>
    obtain ⟨hvs, hvr⟩ := List.forall_mem_append.mp hv
    obtain ⟨hds, hdr⟩ := List.forall_mem_append.mp hd
    have hfirst := h.mirrors w site stated isLocal hr hs hp.1 hvs hds
    have hsafe := h.safely w site stated hr.ready hs hp.1 hvs
    refine hfirst.bind hsafe fun completion w' hadvances hpost hnamed => ?_
    cases completion with
    | normal =>
      obtain ⟨hholds, hsettled⟩ := hpost rfl
      exact ih (hr.after hadvances hnamed hholds hsettled) hsettled hp.2 hvr hdr
    | returned value => exact mirrors_pure hnamed rfl

lemma evaluateEach_mirrors {run : Site → Expr → WatchedRun Value} {run' : Expr → Run Value}
    (h : g.EvaluatesAlike programs run run') {values : List Expr} (hr : Placed programs site w)
    (hp : Expr.ProperAll values)
    (hv : ∀ event ∈ Expr.eventsAll site.context site.scopes values, Accepted programs event) :
    g.Mirrors programs w (WatchedRun.evaluateEach (run site) values)
      (Run.evaluateEach run' (Expr.relabelAll g.labels values)) id := by
  induction values generalizing w with
  | nil => exact mirrors_pure hr.named rfl
  | cons value rest ih =>
    obtain ⟨hvv, hvr⟩ := List.forall_mem_append.mp hv
    have hfirst := h.mirrors w site value hr hp.1 hvv
    have hsafe := h.safely w site value hr.ready hp.1 hvv
    refine hfirst.bind hsafe fun first w' hadvances _ hnamed => ?_
    have hrest := ih (hr.advances hadvances hnamed) hp.2 hvr
    exact Matches.bind hrest fun _ _ _ _ hrelated => matches_pure hrelated rfl

lemma mirrors_newFunction (hn : Named programs w) {closure : Closure}
    (hclean : w.machine.frames.SpecialInPlace site.scopes site.frames)
    (hd : ∀ d ∈ closure.decl.declarations, Declares programs d) :
    g.Mirrors programs w (WatchedRun.newFunction closure site)
      (Run.newFunction (closure.relabel g.labels)) id := by
  obtain ⟨hresult, hstates⟩ := carries_newFunction (g := g) (m := w.machine) closure
  exact ⟨hresult, hstates, hn.newFunction hclean hd⟩

section Methods

variable {method : Closure} {type : ClassSite}

lemma carries_bound (hg : g.Faithful programs) {m : Machine} (hsize : 0 < m.frames.all.size)
    (self : InstanceRef) :
    g.Carries m (Run.bound method self) (Run.bound (method.relabel g.labels) self)
      (Closure.relabel g.labels) := by
  have hbindings : (∅ : Bindings Value).insert Scope.thisName (.instanceAt self) =
      Bindings.mapKeys g.labels.name
        ((∅ : Bindings Value).insert Scope.thisName (.instanceAt self)) := by
    rw [Bindings.mapKeys_insert (by simp [Bindings.Apart, Bindings.contains]),
      hg.special Scope.thisName_not_plain, Bindings.mapKeys_empty]
  refine Matches.bind (carries_newFrame hsize method.scope hbindings) fun _ _ _ _ hrelated => ?_
  exact matches_pure hrelated rfl

lemma mirrors_bound_bind (hg : g.Faithful programs) (hs : Sound programs w) (hn : Named programs w)
    (ht : type.Stands w.machine.frames) (hm : method.FitsClass programs type)
    (hclean : w.machine.frames.SpecialInPlace type.scopes type.frames) (self : InstanceRef)
    {f : Closure × Site → WatchedRun α} {f' : Closure → Run β} {value : α → β}
    (hf : ∀ w' closure, Advances programs none w w' → Named programs w' →
      closure.decl = method.decl →
      closure.Fits programs w'.machine.frames (type.bound closure) →
      w'.machine.frames.SpecialInPlace (type.bound closure).scopes (type.bound closure).frames →
      g.Mirrors programs w' (f (closure, type.bound closure)) (f' (closure.relabel g.labels)) value) :
    g.Mirrors programs w (WatchedRun.bound method type self >>= f)
      (Run.bound (method.relabel g.labels) self >>= f') value := by
  have hbound : outcome (Run.bound method self) w.machine =
      (.ok { method with scope := w.machine.frames.next },
        { w.machine with
          frames := w.machine.frames.push method.scope
            ((∅ : Bindings Value).insert Scope.thisName (.instanceAt self)) }) := rfl
  have hlt : method.scope.index < w.machine.frames.all.size := by
    rw [hm.scope]
    exact ht.index_lt hs.nonempty
  have hfollows : Frames.Follows none w.machine.frames (w.machine.frames.push method.scope
      ((∅ : Bindings Value).insert Scope.thisName (.instanceAt self))) := Frames.follows_push ..
  have hadvances := hs.advances_steps (m := { w.machine with
    frames := w.machine.frames.push method.scope
      ((∅ : Bindings Value).insert Scope.thisName (.instanceAt self)) })
    ⟨hfollows, rfl, rfl, rfl, rfl⟩
  rw [WatchedRun.bound, bind_assoc]
  simp only [pure_bind]
  refine mirrors_lift_bind (carries_bound hg hs.nonempty self) hbound
    (hn.pushSpecial hlt Scope.thisName_not_plain _) fun hnamed => ?_
  refine hf _ _ hadvances hnamed rfl (ht.fits_bound hm self) ?_
  refine (hfollows.specialInPlace hclean).cons (by simp [Frames.push, Frames.next])
    fun name _ hb => ?_
  rw [Frames.binds, Frames.lookup?_push, if_pos rfl] at hb
  rw [Scope.contains_single]
  simpa [Bindings.contains_insert, Bindings.contains] using hb

lemma mirrors_boundValue (hg : g.Faithful programs) (hs : Sound programs w) (hn : Named programs w)
    (ht : type.Stands w.machine.frames) (hm : method.FitsClass programs type)
    (hclean : w.machine.frames.SpecialInPlace type.scopes type.frames)
    (hd : ∀ d ∈ method.decl.declarations, Declares programs d) (self : InstanceRef) :
    g.Mirrors programs w (WatchedRun.boundValue method type self)
      (Run.boundValue (method.relabel g.labels) self) id := by
  refine mirrors_bound_bind hg hs hn ht hm hclean self
    fun w' closure _ hnamed hdecl _ hclean' => ?_
  rw [← hdecl] at hd
  refine Matches.bind (mirrors_newFunction hnamed hclean' hd) fun _ _ _ _ hrelated => ?_
  exact matches_pure hrelated rfl

end Methods

section Invocations

variable {run : Site → Stmt → WatchedRun Completion} {run' : Stmt → Run Completion}

lemma parameters_relabel (hg : g.Faithful programs) {decl : FunctionDecl} {scopes : List Scope}
    (hv : ∀ event ∈ Scope.introductions decl.params (∅ :: scopes), Accepted programs event)
    (arguments : List Value) :
    (∅ : Bindings Value).insertAll (((decl.relabel g.labels).params.map Name.text).zip arguments) =
      ((∅ : Bindings Value).insertAll
        ((decl.params.map Name.text).zip arguments)).mapKeys g.labels.name := by
  have hmem {entry : String × Value} (he : entry ∈ (decl.params.map Name.text).zip arguments) :
      ∃ param ∈ decl.params, param.text = entry.1 :=
    List.mem_map.mp (List.of_mem_zip he).1
  have hnames : (decl.relabel g.labels).params.map Name.text =
      (decl.params.map Name.text).map g.labels.name := by
    simp [Labels.named]
  rw [Bindings.mapKeys_insertAll (by simp [Bindings.Apart, Bindings.contains]) ?_, hnames,
    List.zip_map_left]
  · rfl
  · intro one hone other hother hsame
    obtain ⟨param, hparam, hone⟩ := hmem hone
    obtain ⟨param', hparam', hother⟩ := hmem hother
    rw [← hone, ← hother] at hsame ⊢
    by_contra hne
    rcases (Scope.introductions_beside hv).2 param hparam param' hparam' hne with h | h
    · exact hne (hg.ne_of_beside h hsame.symm).symm
    · exact hne (hg.ne_of_beside h hsame)

lemma lookup?_special (hg : g.Faithful programs) (m : Machine) (frame : FrameRef) {name : String}
    (hn : ¬ Scope.IsPlain name) :
    (g.machine m).frames.lookup? frame name = m.frames.lookup? frame name := by
  have htells := hg.tells_special m.frames frame hn
  have hlookup := Frames.lookup?_rename htells
  rwa [hg.special hn] at hlookup

lemma invoke_mirrors (hg : g.Faithful programs) (h : g.ExecutesAlike programs run run')
    (hs : Sound programs w) (hr : Ruled programs w.machine.table) (hn : Named programs w)
    {closure : Closure} (hc : closure.Fits programs w.machine.frames site)
    (hclean : w.machine.frames.SpecialInPlace site.scopes site.frames)
    (hd : ∀ d ∈ closure.decl.declarations, Declares programs d) {arguments : List Value}
    (hlen : arguments.length = closure.arity) :
    g.Mirrors programs w (WatchedRun.invoke run closure site arguments)
      (Run.invoke run' (closure.relabel g.labels) arguments) id := by
  obtain ⟨-, hparams, hproper⟩ := FunctionDecl.proper_iff.mp hc.proper
  have hbindings := parameters_relabel hg
    (fun event he => hc.accepted event (FunctionDecl.mem_events_of_params he)) arguments
  refine mirrors_lift_bind (carries_newFrame hs.nonempty closure.scope hbindings)
    (Run.outcome_newFrame ..) (hn.pushCall hs hc arguments) fun hnamed => ?_
  have hfollows : Frames.Follows none w.machine.frames (w.machine.frames.push closure.scope
      ((∅ : Bindings Value).insertAll ((closure.decl.params.map Name.text).zip arguments))) :=
    Frames.follows_push ..
  have hsettled := Site.settled_inCall hc.settled closure.decl.params w.machine.frames.next
  have hinside : (w.machine.frames.push closure.scope
      ((∅ : Bindings Value).insertAll
        ((closure.decl.params.map Name.text).zip arguments))).SpecialInPlace
      (site.inCall closure.decl.params w.machine.frames.next).scopes
      (site.inCall closure.decl.params w.machine.frames.next).frames := by
    refine ((hfollows.specialInPlace hclean).cons (by simp [Frames.push, Frames.next])
      fun name hn hb => ?_).introduceAll
    have hbinds : (∅ : Bindings Value).contains name = true ∨ name ∈
        ((closure.decl.params.map Name.text).zip arguments).map Prod.fst := by
      rw [Frames.binds, Frames.lookup?_push, if_pos rfl] at hb
      exact (Bindings.contains_insertAll ..).mp hb
    rcases hbinds with hbinds | hbinds
    · simp [Bindings.contains] at hbinds
    · obtain ⟨entry, he, rfl⟩ := List.mem_map.mp hbinds
      obtain ⟨param, hparam, htext⟩ := List.mem_map.mp (List.of_mem_zip he).1
      exact absurd (htext ▸ hparams param hparam) hn
  have hbody := sequence_mirrors h
    ⟨hc.ready hs hr hlen, hnamed.setCurrent _, hinside, .inl hsettled⟩ hsettled hproper
    (fun event he => hc.accepted event (FunctionDecl.mem_events_of_body he))
    fun d hd' => hd d (FunctionDecl.mem_declarations_of_body hd')
  simp only [Closure.relabel, FunctionDecl.body_relabel]
  refine Matches.bind (mirrors_within hbody) fun completion w' m' _ hstate => ?_
  obtain ⟨rfl, hnamed'⟩ := hstate
  refine .ite (fun _ => mirrors_get (mirrors_pure hnamed' ?_)) fun _ => mirrors_pure hnamed' rfl
  exact congrArg (Option.getD · Value.nil) (lookup?_special hg _ _ Scope.thisName_not_plain)

lemma call_mirrors (hg : g.Faithful programs) (h : g.ExecutesAlike programs run run')
    (hs : Sound programs w) (hr : Ruled programs w.machine.table) (hn : Named programs w)
    {callable : Callable} {type : ClassSite}
    (hf : ∀ closure, callable = .function closure → closure.Fits programs w.machine.frames site ∧
      ∀ d ∈ closure.decl.declarations, Declares programs d)
    (hclean : w.machine.frames.SpecialInPlace site.scopes site.frames)
    (hc : ∀ ref method, callable = .construct ref (some method) → type.Stands w.machine.frames ∧
      method.FitsClass programs type ∧ ∀ d ∈ method.decl.declarations, Declares programs d)
    (hclean' : w.machine.frames.SpecialInPlace type.scopes type.frames) {arguments : List Value}
    (hlen : arguments.length = callable.arity) :
    g.Mirrors programs w (WatchedRun.call run callable site type arguments)
      (Run.call run' (callable.map (Closure.relabel g.labels)) arguments) id := by
  cases callable with
  | native primitive =>
    cases primitive
    have hclock : g.Mirrors programs w (WatchedRun.lift Run.readClock) Run.readClock id :=
      mirrors_lift carries_readClock (hn.same rfl rfl rfl)
    exact hclock.map fun _ => rfl
  | function closure =>
    obtain ⟨hfits, hd⟩ := hf closure rfl
    exact invoke_mirrors hg h hs hr hn hfits hclean hd hlen
  | construct ref initializer =>
    refine mirrors_lift_bind (carries_newInstance ref) rfl (hn.same rfl rfl rfl) fun hnamed => ?_
    cases initializer with
    | none => exact mirrors_pure hnamed rfl
    | some method =>
      obtain ⟨hstands, hmethod, hd⟩ := hc ref method rfl
      have hsound := hs.steps (m := { w.machine with
        instances := w.machine.instances.push ⟨ref, ∅⟩ }) ⟨.refl none _, rfl, rfl, rfl, rfl⟩
      refine mirrors_bound_bind hg hsound hnamed hstands hmethod hclean' _
        fun w' closure hadvances hnamed' hdecl hfits hclean'' => ?_
      rw [← hdecl] at hd
      have harity : arguments.length = closure.arity := by
        rw [hlen, Closure.arity, hdecl]
        rfl
      refine Matches.bind
        (invoke_mirrors hg h hadvances.sound (hadvances.ruled hr) hnamed' hfits hclean'' hd harity)
        fun _ _ _ _ hrelated => ?_
      exact matches_pure hrelated rfl

lemma callValue_mirrors (hg : g.Faithful programs) (h : g.ExecutesAlike programs run run')
    (hs : Sound programs w) (hr : Ruled programs w.machine.table) (hn : Named programs w)
    (callee : Value) (arguments : List Value) (line : Nat) :
    g.Mirrors programs w (WatchedRun.callValue run callee arguments line)
      (Run.callValue run' callee arguments (g.labels.line line)) id := by
  refine mirrors_get (mirrors_require hn (mapped.callable? callee) rfl rfl fun callable hcallable => ?_)
  have harity := Callable.arity_map (Closure.arity_relabel g.labels) callable
  simp only [harity]
  refine .ite (fun hlen => ?_) fun _ => mirrors_fail hn rfl rfl
  refine call_mirrors hg h hs hr hn ?_ (hn.functionSite callee) ?_ ?_ hlen
  · rintro closure rfl
    cases callee with
    | functionAt ref =>
      obtain ⟨closure', hclosure, heq⟩ := Option.map_eq_some_iff.mp hcallable
      rw [Callable.function.inj heq] at hclosure
      exact ⟨hs.fits_functionSite hclosure, hn.declares_function hclosure⟩
    | nil | boolean | number | text | native | classAt | instanceAt =>
      simp [Machine.callable?] at hcallable
  · rintro ref method rfl
    cases callee with
    | classAt ref' =>
      obtain ⟨-, hmethod⟩ := Callable.construct.inj (Option.some.inj hcallable)
      obtain ⟨hstands, hfits⟩ := hs.fits_methodSite hmethod
      exact ⟨hstands, hfits, hn.declares_method hmethod⟩
    | nil | boolean | number | text | native | functionAt | instanceAt =>
      simp [Machine.callable?] at hcallable
  · cases callee with
    | classAt ref => exact hn.methodSite ref initializerName
    | nil | boolean | number | text | native | functionAt | instanceAt =>
      simp [WatchedRun.initializerSite, ClassSite.top, ClassSite.scopes, Site.top, Frames.SpecialInPlace]

end Invocations

lemma getProperty_mirrors (hg : g.Faithful programs) (hs : Sound programs w) (hn : Named programs w)
    (object : Value) (property : Name) :
    g.Mirrors programs w (WatchedRun.getProperty object property)
      (Run.getProperty object (g.labels.title property)) id := by
  cases object with
  | instanceAt self =>
    refine mirrors_get (mirrors_require hn (mapped.member? self property.text) rfl rfl
      fun member hmember => ?_)
    cases member with
    | field value => exact mirrors_pure hn rfl
    | method closure =>
      obtain ⟨found, hfound, hmember⟩ := Option.bind_eq_some_iff.mp hmember
      have hmethod : w.machine.method? found.classRef property.text = some closure := by
        cases hfield : found.fields.get? property.text with
        | some value => simp [hfield] at hmember
        | none => simpa [hfield] using hmember
      have hsite : w.memberSite self property.text = w.methodSite found.classRef property.text := by
        rw [Watch.memberSite, hfound, Option.elim_some]
      obtain ⟨hstands, hfits⟩ := hs.fits_methodSite hmethod
      have hclean := hn.methodSite found.classRef property.text
      rw [← hsite] at hstands hfits hclean
      exact mirrors_boundValue hg hs hn hstands hfits hclean (hn.declares_method hmethod) self
  | nil | boolean | number | text | native | functionAt | classAt => exact mirrors_fail hn rfl rfl

lemma super?_machine (hg : g.Faithful programs) {m : Machine} {keyword : Reference}
    (hentry : g.table[keyword.id]? = m.table[keyword.id]?) :
    (g.machine m).super? (g.labels.reference keyword) = m.super? keyword := by
  have hfind {distance : Nat} {name : String} (hn : ¬ Scope.IsPlain name) :
      (g.machine m).frames.findAt? (g.machine m).current distance name =
        m.frames.findAt? m.current distance name := by
    have hancestor : (g.machine m).frames.ancestor? (g.machine m).current distance =
        m.frames.ancestor? m.current distance := Frames.ancestor?_rename ..
    simp only [Frames.findAt?, hancestor, lookup?_special hg m _ hn]
  have hentry' : (g.machine m).table[(g.labels.reference keyword).id]? = m.table[keyword.id]? := hentry
  simp only [Machine.super?, hentry', hfind Scope.superName_not_plain, hfind Scope.thisName_not_plain]

lemma getSuper_mirrors (hg : g.Faithful programs) (hs : Sound programs w) (hn : Named programs w)
    {keyword : Reference} (hentry : g.table[keyword.id]? = w.machine.table[keyword.id]?)
    (method : Name) :
    g.Mirrors programs w (WatchedRun.getSuper keyword method)
      (Run.getSuper (g.labels.reference keyword) (g.labels.title method)) id := by
  have hsuper : (g.machine w.machine).super? (g.labels.reference keyword) =
      (w.machine.super? keyword).map id := by
    rw [super?_machine hg hentry, Option.map_id_fun, id]
  refine mirrors_get (mirrors_require hn hsuper rfl rfl fun (superclass, self) _ => ?_)
  refine mirrors_require hn (mapped.method? superclass method.text) rfl rfl fun found hfound => ?_
  obtain ⟨hstands, hfits⟩ := hs.fits_methodSite hfound
  exact mirrors_boundValue hg hs hn hstands hfits (hn.methodSite superclass method.text)
    (hn.declares_method hfound) self

section Variables

variable {target : Reference}

lemma carries_read {m : Machine} (hf : g.Finds m target) :
    g.Carries m (Run.read target) (Run.readBy g.find (g.labels.reference target)) id := by
  obtain ⟨hfind, htells⟩ := hf
  refine matches_get (carries_require ?_ rfl rfl)
  change (g.find (g.machine m) (g.labels.reference target)).bind
    ((g.machine m).frames.lookup? · (g.labels.name target.name.text)) = _
  rw [hfind, Machine.read?, Option.map_id_fun, id]
  cases hbinder : m.binder? target with
  | none => rfl
  | some frame => exact Frames.lookup?_rename (htells frame hbinder)

lemma mirrors_read (hn : Named programs w) (hf : g.Finds w.machine target) :
    g.Mirrors programs w (WatchedRun.lift (Run.read target))
      (Run.readBy g.find (g.labels.reference target)) id := by
  refine mirrors_lift (carries_read hf) ?_
  rw [Run.outcome_read_snd]
  exact hn

lemma mirrors_superclassOf (hn : Named programs w) (hf : g.Finds w.machine target) :
    g.Mirrors programs w (WatchedRun.lift (Run.superclassOf target))
      (Run.superclassOfBy g.find (g.labels.reference target)) id := by
  refine mirrors_lift (Matches.bind (carries_read hf) fun value m' t' _ ht => ?_) ?_
  · subst ht
    cases value with
    | classAt ref => exact matches_pure rfl rfl
    | nil | boolean | number | text | native | functionAt | instanceAt =>
      exact carries_fail id rfl rfl
  · have hread : (outcome (Run.read target) w.machine).2 = w.machine :=
      Run.outcome_read_snd target w.machine
    rw [Run.superclassOf, outcome_bind]
    rcases hresult : outcome (Run.read target) w.machine with ⟨_ | value, m⟩ <;>
      rw [hresult] at hread <;> subst hread
    · exact hn
    · cases value <;> exact hn

lemma mirrors_assign (hn : Named programs w) (hp : Scope.IsPlain target.name.text)
    (hf : g.Finds w.machine target) (value : Value) :
    g.Mirrors programs w (WatchedRun.lift (Run.assign target value))
      (Run.assignBy g.find (g.labels.reference target) value) id := by
  obtain ⟨hfind, htells⟩ := hf
  have hfound : g.find (g.machine w.machine) (g.labels.reference target) =
      (w.machine.binder? target).map id := by
    rw [hfind, Option.map_id_fun, id]
  refine mirrors_lift ?_ ?_
  · refine matches_get (Matches.bind (carries_require hfound rfl rfl) fun frame m' _ ho hm => ?_)
    cases hbinder : w.machine.binder? target with
    | none =>
      rw [hbinder] at ho
      simp [Run.require, Run.fail] at ho
    | some binder =>
      rw [hbinder] at ho
      obtain ⟨rfl, rfl⟩ : binder = frame ∧ w.machine = m' := by
        simpa [Run.require] using ho
      subst hm
      exact carries_define (htells binder hbinder) rfl value
  · rw [Run.outcome_assign]
    cases hbinder : w.machine.binder? target with
    | none => exact hn
    | some frame => exact hn.redefine hp (Machine.binds_of_binder? hbinder) value

end Variables

end Guise

end Lox
