import Lox.Proofs.Direct.Steps

/-! Calls of direct runs beside those of watched ones. They go along if the statements that they execute
do. -/

namespace Lox.Direct

lemma Env.Follows.inCall {home : List FrameRef} {exact : Bool} {site : Site} {env : Env}
    (h : env.Follows home exact site.scopes site.frames) (params : List Name) {frame ref : FrameRef}
    (href : home[ref.index]? = some frame) :
    Env.Follows home true (site.inCall params frame).scopes (site.inCall params frame).frames
      (⟨params.map Name.text, ref⟩ :: env) := by
  obtain ⟨inner, hinner, hget⟩ := Scope.introduceAll_cons params ∅ site.scopes
  simp only [Site.inCall, hinner]
  refine .level h (fun name => ?_) href
  rw [Bindings.contains, hget]
  split <;> simp [*]

namespace Tied

variable {programs : List Lox.Program} {home : List FrameRef} {w : Watch} {s : State}

lemma methodAmong? (h : Tied home w s) (hs : Sound programs w) (name : String) (count : Nat)
    (ref : ClassRef) :
    w.machine.methodAmong? name count ref = none ∧ s.methodAmong? name count ref = none ∨
      ∃ method own owner site, w.machine.methodAmong? name count ref = some method ∧
        s.methodAmong? name count ref = some own ∧ w.machine.ownerAmong? name count ref = some owner ∧
        w.journal.classes[owner.index]? = some site ∧ own.Belongs home method site := by
  induction count generalizing ref with
  | zero => exact .inl ⟨rfl, rfl⟩
  | succ count ih =>
    simp only [Machine.methodAmong?, State.methodAmong?, Machine.ownerAmong?, Machine.class?]
    rcases h.class_cases hs ref.index with
      ⟨htype, hown⟩ | ⟨type, own, site, htype, hown, hsite, hstands⟩
    · exact .inl (by simp [htype, hown])
    simp only [htype, hown, Option.bind_some, hstands.superclass, Bindings.contains]
    rcases rel_cases (hstands.methods name) with ⟨hm, ho⟩ | ⟨method, own', hm, ho, hbelongs⟩
    · simp only [hm, ho, Option.none_or, Option.isSome_none, Bool.false_eq_true, if_false]
      cases own.superclass with
      | none => exact .inl ⟨rfl, rfl⟩
      | some parent => exact ih parent
    · refine .inr ⟨method, own', ref, site, ?_, ?_, ?_, hsite, hbelongs⟩ <;> simp [hm, ho]

lemma method? (h : Tied home w s) (hs : Sound programs w) (ref : ClassRef) (name : String) :
    Option.Rel (fun method own => Closure.Belongs home own method (w.methodSite ref name))
      (w.machine.method? ref name) (s.method? ref name) := by
  rw [Machine.method?, State.method?]
  rcases h.methodAmong? hs name (ref.index + 1) ref with ⟨hm, ho⟩ |
    ⟨method, own, owner, site, hm, ho, howner, hsite, hbelongs⟩
  · rw [hm, ho]
    exact .none
  · rw [hm, ho, Watch.methodSite, howner, Option.bind_some, hsite]
    exact .some hbelongs

end Tied

/-- What can be called is called so in both runs. -/
inductive Callable.Meets (programs : List Lox.Program) (home : List FrameRef) (f : Frames) (site : Site)
    (type : ClassSite) : Lox.Callable → Callable → Prop
  | native {function} : Meets programs home f site type (.native function) (.native function)
  | function {closure own} : closure.Fits programs f site → own.Stands home closure site →
      Meets programs home f site type (.function closure) (.function own)
  | alone {ref} : Meets programs home f site type (.construct ref none) (.construct ref none)
  | construct {ref method own} : type.Stands f → method.FitsClass programs type →
      own.Belongs home method type →
      Meets programs home f site type (.construct ref (some method)) (.construct ref (some own))

namespace Callable.Meets

variable {programs : List Lox.Program} {home : List FrameRef} {f : Frames} {site : Site}
  {type : ClassSite} {callable : Lox.Callable} {own : Callable}

lemma arity_eq (h : Meets programs home f site type callable own) : callable.arity = own.arity := by
  cases h with
  | @native function =>
    cases function
    rfl
  | function _ hstands =>
    rw [Lox.Callable.arity, Lox.Closure.arity, hstands.decl, FunctionDecl.desugar_params]
    rfl
  | alone => rfl
  | construct _ _ hbelongs =>
    rw [Lox.Callable.arity, Option.elim_some, Lox.Closure.arity, hbelongs.decl,
      FunctionDecl.desugar_params]
    rfl

end Callable.Meets

lemma Tied.callable? {programs : List Lox.Program} {home : List FrameRef} {w : Watch} {s : State}
    (h : Tied home w s) (hs : Sound programs w) (callee : Value) :
    Option.Rel (Callable.Meets programs home w.machine.frames (w.functionSite callee)
        (WatchedRun.initializerSite w callee))
      (w.machine.callable? callee) (s.callable? callee) := by
  cases callee with
  | nil | boolean | number | text | instanceAt => exact .none
  | native function => exact .some .native
  | functionAt ref =>
    simp only [Machine.callable?, State.callable?]
    rcases h.function_cases hs ref.index with ⟨hc, ho⟩ | ⟨closure, own, site, hc, ho, hsite, hstands⟩
    · rw [Machine.function?, hc, ho]
      exact .none
    · rw [Machine.function?, hc, ho]
      refine .some (.function (hs.fits_functionSite hc) ?_)
      rw [Watch.functionSite, hsite]
      exact hstands
  | classAt ref =>
    simp only [Machine.callable?, State.callable?]
    refine .some ?_
    rcases rel_cases (h.method? hs ref initializerName) with ⟨hm, ho⟩ | ⟨method, own, hm, ho, hbelongs⟩
    · rw [hm, ho]
      exact .alone
    · obtain ⟨hstands, hfits⟩ := hs.fits_methodSite hm
      rw [hm, ho]
      exact .construct hstands hfits hbelongs

/-- A place where a watched run is about to go on, and the levels of the direct one there. -/
structure Standing (programs : List Lox.Program) (home : List FrameRef) (exact : Bool) (site : Site)
    (env : Env) (w : Watch) : Prop where
  ready : Ready programs site w
  follows : env.Follows home exact site.scopes site.frames

namespace Standing

variable {programs : List Lox.Program} {home home' : List FrameRef} {exact : Bool} {site : Site}
  {env : Env} {w w' : Watch}

lemma advances (h : Standing programs home exact site env w) (ha : Advances programs none w w')
    (hle : home <+: home') : Standing programs home' exact site env w' :=
  ⟨h.ready.advances ha, h.follows.mono hle⟩

lemma after {free : Option FrameRef} {stated : Stmt} (h : Standing programs home exact site env w)
    (ha : Advances programs free w w') (hle : home <+: home') (hp : stated.desugar.Proper)
    (hexact : stated.desugar.isDeclaration = true → exact = true)
    (hholds : (site.after stated.desugar).Holds w'.machine) :
    Standing programs home' exact (site.after stated.desugar) (env.after stated) w' where
  ready := ha.ready h.ready.ruled hholds
  follows := (h.follows.after hp hexact).mono hle

lemma resumes {free : Option FrameRef} (h : Standing programs home exact site env w)
    (ha : Advances programs free w w') (hle : home <+: home') (hholds : site.Holds w'.machine) :
    Standing programs home' exact site env w' where
  ready := ha.ready h.ready.ruled hholds
  follows := h.follows.mono hle

end Standing

/-- With so much fuel expressions are evaluated directly as they are under watch, at any place. -/
def EvaluatesDirectly (programs : List Lox.Program) (fuel : Nat) : Prop :=
  ∀ home exact w s site env value, Standing programs home exact site env w → value.Proper →
    (∀ event ∈ value.events site.context site.scopes, Accepted programs event) → Tied home w s →
    Imitates home w s (WatchedRun.evaluate fuel site value) (evaluate fuel env value)

def ExecutesDirectly (programs : List Lox.Program) (fuel : Nat) : Prop :=
  ∀ home exact w s site env stated, Standing programs home exact site env w →
    Scope.Settled site.scopes → stated.desugar.Proper → stated.Formed →
    (∀ event ∈ stated.desugar.events site.context site.scopes, Accepted programs event) →
    (stated.desugar.isDeclaration = true → exact = true) → Tied home w s →
    Imitates home w s (WatchedRun.execute fuel site stated.desugar) (execute fuel env stated)

variable {programs : List Lox.Program} {fuel : Nat} {home : List FrameRef} {exact : Bool} {site : Site}
  {env : Env} {w : Watch} {s : State}

lemma sequence_imitates (hx : ExecutesDirectly programs fuel) {body : List Stmt}
    (hr : Standing programs home true site env w) (hs : Scope.Settled site.scopes)
    (hp : Stmt.ProperAll (Stmt.desugarAll body)) (hf : Stmt.FormedAll body)
    (hv : ∀ event ∈ Stmt.eventsAll site.context site.scopes (Stmt.desugarAll body),
      Accepted programs event)
    (h : Tied home w s) :
    Imitates home w s (WatchedRun.sequence (WatchedRun.execute fuel) site (Stmt.desugarAll body))
      (Run.sequence (execute fuel) env body) := by
  induction body generalizing home w s site env with
  | nil => exact imitates_pure h _
  | cons stated rest ih =>
    obtain ⟨hvs, hvr⟩ := List.forall_mem_append.mp hv
    have hfirst := hx home true w s site env stated hr hs hp.1 hf.1 hvs (fun _ => rfl) h
    have hsafe := (WatchedRun.all_safe programs fuel).2 w site stated.desugar hr.ready hs hp.1 hvs
    refine hfirst.bind hsafe fun completion home' w' s' hle ha hpost h' => ?_
    cases completion with
    | normal =>
      obtain ⟨hholds, hsettled⟩ := hpost rfl
      exact ih (hr.after ha hle hp.1 (fun _ => rfl) hholds) hsettled hp.2 hf.2 hvr h'
    | returned value => exact imitates_pure h' _

lemma evaluateEach_imitates (hx : EvaluatesDirectly programs fuel) {values : List Expr}
    (hr : Standing programs home exact site env w) (hp : Expr.ProperAll values)
    (hv : ∀ event ∈ Expr.eventsAll site.context site.scopes values, Accepted programs event)
    (h : Tied home w s) :
    Imitates home w s (WatchedRun.evaluateEach (WatchedRun.evaluate fuel site) values)
      (Run.evaluateEach (evaluate fuel env) values) := by
  induction values generalizing home w s with
  | nil => exact imitates_pure h _
  | cons value rest ih =>
    obtain ⟨hvv, hvr⟩ := List.forall_mem_append.mp hv
    have hsafe := (WatchedRun.all_safe programs fuel).1 w site value hr.ready hp.1 hvv
    refine (hx home exact w s site env value hr hp.1 hvv h).bind hsafe
      fun first home' w' s' hle ha _ h' => ?_
    exact (ih (hr.advances ha hle) hp.2 hvr h').yield

lemma newFunction_imitates (h : Tied home w s) (hs : Sound programs w) {closure : Lox.Closure}
    {own : Closure} (ho : own.Stands home closure site) :
    Imitates home w s (WatchedRun.newFunction closure site) (Run.newFunction own) := by
  refine ⟨?_, home, List.prefix_refl _, h.newFunction hs ho⟩
  exact congrArg (fun size => Except.ok (FunctionRef.mk size)) h.sizeFunctions

section Methods

variable {α : Type} {method : Lox.Closure} {own : Closure} {place : ClassSite}

lemma bound_imitates (h : Tied home w s) (hs : Sound programs w) (ht : place.Stands w.machine.frames)
    (hm : method.FitsClass programs place) (ho : own.Belongs home method place) (self : InstanceRef)
    {f : Lox.Closure × Site → WatchedRun α} {g : Closure → Run α}
    (hf : ∀ home' w' s' closure bound, home <+: home' → Advances programs none w w' →
      closure.Fits programs w'.machine.frames (place.bound closure) → closure.decl = method.decl →
      bound.Stands home' closure (place.bound closure) → Tied home' w' s' →
      Imitates home' w' s' (f (closure, place.bound closure)) (g bound)) :
    Imitates home w s (WatchedRun.bound method place self >>= f) (Run.bound own self >>= g) := by
  have hbound : outcome (Lox.Run.bound method self) w.machine =
      (.ok { method with scope := w.machine.frames.next },
        { w.machine with
          frames := w.machine.frames.push method.scope
            ((∅ : Bindings Value).insert Scope.thisName (.instanceAt self)) }) := rfl
  have hown : outcome (Run.bound own self) s =
      (.ok { own with env := ⟨[Scope.thisName], ⟨s.frames.size⟩⟩ :: own.env },
        { s with
          frames := s.frames.push
            ((∅ : Bindings Value).insert Scope.thisName (.instanceAt self)) }) := rfl
  have hfollows : Frames.Follows none w.machine.frames (w.machine.frames.push method.scope
      ((∅ : Bindings Value).insert Scope.thisName (.instanceAt self))) := Frames.follows_push ..
  have hle : home <+: home ++ [w.machine.frames.next] := List.prefix_append ..
  have href : (home ++ [w.machine.frames.next])[s.frames.size]? = some w.machine.frames.next := by
    rw [← h.frames.length, List.getElem?_concat_length]
  rw [WatchedRun.bound, bind_assoc]
  simp only [pure_bind]
  refine imitates_lift_bind hbound hown hle (hf _ _ _ _ _ hle ?_ (ht.fits_bound hm self) rfl
    ((ho.mono hle).bound href) (h.withFrames hle (h.frames.push _ _)))
  exact hs.advances_steps ⟨hfollows, rfl, rfl, rfl, rfl⟩

lemma boundValue_imitates (h : Tied home w s) (hs : Sound programs w)
    (ht : place.Stands w.machine.frames) (hm : method.FitsClass programs place)
    (ho : own.Belongs home method place) (self : InstanceRef) :
    Imitates home w s (WatchedRun.boundValue method place self) (Run.boundValue own self) :=
  bound_imitates h hs ht hm ho self fun _ _ _ _ _ _ ha _ _ hstands h' =>
    (newFunction_imitates h' ha.sound hstands).yield

end Methods

lemma invoke_imitates (hx : ExecutesDirectly programs fuel) (h : Tied home w s) (hs : Sound programs w)
    (hr : Ruled programs w.machine.table) {closure : Lox.Closure} {own : Closure}
    (hc : closure.Fits programs w.machine.frames site) (ho : own.Stands home closure site)
    {arguments : List Value} (hlen : arguments.length = closure.arity) :
    Imitates home w s (WatchedRun.invoke (WatchedRun.execute fuel) closure site arguments)
      (Run.invoke (execute fuel) own arguments) := by
  obtain ⟨decl, scope, isInitializer⟩ := closure
  obtain rfl : decl = own.decl.desugar := ho.decl
  obtain rfl : isInitializer = own.isInitializer := ho.isInitializer
  obtain ⟨-, -, hproper⟩ := FunctionDecl.proper_iff.mp hc.proper
  have haccepted := hc.accepted
  have hready := hc.ready hs hr hlen
  simp only [FunctionDecl.desugar_params, FunctionDecl.desugar_body] at hready hproper
  simp only [WatchedRun.invoke, Run.invoke, FunctionDecl.desugar_params, FunctionDecl.desugar_body]
  refine imitates_newFrame h fun h' href => ?_
  have hle : home <+: home ++ [w.machine.frames.next] := List.prefix_append ..
  have hbody := sequence_imitates hx
    ⟨hready, (ho.follows.mono hle).inCall own.decl.params href⟩
    (Site.settled_inCall hc.settled _ _) hproper (FunctionDecl.formed_iff.mp ho.formed)
    (fun event he => haccepted event (FunctionDecl.mem_events_of_body
      (by rwa [FunctionDecl.desugar_params, FunctionDecl.desugar_body])))
    (h'.setCurrent w.machine.frames.next)
  refine (imitates_within hbody).andThen fun completion home' w' s' hle' h'' => ?_
  refine .ite (fun hinitializer => imitates_get ?_) fun _ => imitates_pure h'' _
  have hthis := home_mono (hle.trans hle') (ho.this hinitializer)
  rw [State.find?, h''.lookup?_eq hthis]
  exact imitates_pure h'' _

lemma imitates_readClock (h : Tied home w s) :
    Imitates home w s (WatchedRun.lift Lox.Run.readClock) Run.readClock := by
  have hown : outcome Run.readClock s = (.ok (w.machine.clock.reading w.machine.clock.taken),
      { s with clock := { w.machine.clock with taken := w.machine.clock.taken + 1 } }) := by
    rw [← h.clock]
    rfl
  exact imitates_lift rfl hown (List.prefix_refl _)
    (h.step (List.prefix_refl _) rfl rfl rfl rfl h.frames h.instances h.output rfl)

lemma newInstance_imitates {α : Type} (h : Tied home w s) (ref : ClassRef)
    {f : InstanceRef → WatchedRun α} {g : InstanceRef → Run α}
    (hf : ∀ s', Tied home
        { w with machine.instances := w.machine.instances.push ⟨ref, ∅⟩ } s' →
      Imitates home { w with machine.instances := w.machine.instances.push ⟨ref, ∅⟩ } s'
        (f ⟨w.machine.instances.size⟩) (g ⟨w.machine.instances.size⟩)) :
    Imitates home w s (WatchedRun.lift (Lox.Run.newInstance ref) >>= f)
      (Run.newInstance ref >>= g) := by
  have hmachine : outcome (Lox.Run.newInstance ref) w.machine = (.ok ⟨w.machine.instances.size⟩,
      { w.machine with instances := w.machine.instances.push ⟨ref, ∅⟩ }) := rfl
  have hown : outcome (Run.newInstance ref) s = (.ok ⟨w.machine.instances.size⟩,
      { s with instances := w.machine.instances.push ⟨ref, ∅⟩ }) := by
    rw [← h.instances]
    rfl
  exact imitates_lift_bind hmachine hown (List.prefix_refl _) (hf _
    (h.step (List.prefix_refl _) rfl rfl rfl rfl h.frames rfl h.output h.clock))

lemma call_imitates (hx : ExecutesDirectly programs fuel) (h : Tied home w s) (hs : Sound programs w)
    (hr : Ruled programs w.machine.table) {place : ClassSite} {callable : Lox.Callable} {own : Callable}
    (hmeets : Callable.Meets programs home w.machine.frames site place callable own)
    {arguments : List Value} (hlen : arguments.length = callable.arity) :
    Imitates home w s (WatchedRun.call (WatchedRun.execute fuel) callable site place arguments)
      (Run.call (execute fuel) own arguments) := by
  cases hmeets with
  | @native function =>
    cases function
    exact Matches.map (imitates_readClock h) fun _ => rfl
  | function hfits hstands => exact invoke_imitates hx h hs hr hfits hstands hlen
  | alone => exact newInstance_imitates h _ fun _ h' => imitates_pure h' _
  | @construct ref method own hplace hfits hbelongs =>
    refine newInstance_imitates h ref fun s' h' => ?_
    have hsound := hs.steps (Run.quiet_newInstance ref w.machine)
    refine bound_imitates h' hsound hplace hfits hbelongs _
      fun home' w' s'' closure bound _ ha hfits' hdecl hstands h'' => ?_
    have harity : arguments.length = closure.arity := by
      rw [hlen, Lox.Closure.arity, hdecl]
      rfl
    exact (invoke_imitates hx h'' ha.sound (ha.ruled hr) hfits' hstands harity).yield

lemma callValue_imitates (hx : ExecutesDirectly programs fuel) (h : Tied home w s)
    (hs : Sound programs w) (hr : Ruled programs w.machine.table) (callee : Value)
    (arguments : List Value) (line : Nat) :
    Imitates home w s (WatchedRun.callValue (WatchedRun.execute fuel) callee arguments line)
      (Run.callValue (execute fuel) callee arguments line) := by
  refine imitates_get (imitates_require h (h.callable? hs callee) fun callable own _ hmeets => ?_)
  rw [hmeets.arity_eq]
  refine .ite (fun hlen => ?_) fun _ => imitates_fail h _ _
  exact call_imitates hx h hs hr hmeets (hlen.trans hmeets.arity_eq.symm)

inductive Member.Meets (programs : List Lox.Program) (home : List FrameRef) (f : Frames)
    (site : ClassSite) : Lox.Member → Member → Prop
  | field {value} : Meets programs home f site (.field value) (.field value)
  | method {method own} : site.Stands f → method.FitsClass programs site →
      Closure.Belongs home own method site → Meets programs home f site (.method method) (.method own)

lemma Tied.member? (h : Tied home w s) (hs : Sound programs w) (self : InstanceRef) (name : String) :
    Option.Rel (Member.Meets programs home w.machine.frames (w.memberSite self name))
      (w.machine.member? self name) (s.member? self name) := by
  rw [Machine.member?, State.member?, Machine.instance?, h.instances, Watch.memberSite,
    Machine.instance?]
  cases w.machine.instances[self.index]? with
  | none => exact .none
  | some found =>
    simp only [Option.bind_some, Option.elim_some]
    cases found.fields.get? name with
    | some value => exact .some .field
    | none =>
      simp only [Option.map_none, Option.none_or]
      rcases rel_cases (h.method? hs found.classRef name) with ⟨hm, ho⟩ | ⟨method, own, hm, ho, hbelongs⟩
      · rw [hm, ho]
        exact .none
      · obtain ⟨hstands, hfits⟩ := hs.fits_methodSite hm
        rw [hm, ho]
        exact .some (.method hstands hfits hbelongs)

lemma getProperty_imitates (h : Tied home w s) (hs : Sound programs w) (object : Value)
    (property : Name) :
    Imitates home w s (WatchedRun.getProperty object property) (Run.getProperty object property) := by
  cases object with
  | instanceAt self =>
    refine imitates_get (imitates_require h (h.member? hs self property.text)
      fun member own _ hmeets => ?_)
    cases hmeets with
    | field => exact imitates_pure h _
    | method hstands hfits hbelongs => exact boundValue_imitates h hs hstands hfits hbelongs self
  | nil | boolean | number | text | native | functionAt | classAt => exact imitates_fail h _ _

end Lox.Direct
