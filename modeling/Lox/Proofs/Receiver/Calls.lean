import Lox.Proofs.Receiver.Ties

/-! Runs on record beside watched ones. A call keeps the record tied to the journal if the statements
that it executes do. -/

namespace Lox

/-- A place where a run is about to go on, for the receiver. -/
structure Attending (programs : List Program) (receiver : Option Receiver) (site : Site) (w : Watch) :
    Prop where
  ready : Ready programs site w
  closed : w.machine.Closed
  serves : site.Serves w.machine.frames receiver

/-- A part of a watched run that has a result goes on where it should, and keeps the machine closed. -/
def Sure {α : Type} (programs : List Program) (free : Option FrameRef) (w : Watch) (x : WatchedRun α)
    (post : α → Watch → Prop) : Prop :=
  ∀ a w', outcome x w = (.ok a, w') →
    Advances programs free w w' ∧ w.machine.Grows w'.machine ∧ w'.machine.Closed ∧ post a w'

lemma WatchedRun.Safe.sure {α : Type} {programs : List Program} {free : Option FrameRef} {w : Watch}
    {x : WatchedRun α} {y : Run α} {post : α → Watch → Prop} {post' : α → Machine → Prop}
    (h : Safe programs free w x post) (he : Erases x y id) (hc : Run.Closes w.machine y post') :
    Sure programs free w x fun a w' => post a w' ∧ post' a w'.machine := by
  intro a w' hx
  obtain ⟨hadvances, hpost⟩ := h
  have hy := he w
  rw [hx] at hadvances hpost hy
  obtain ⟨hgrows, hclosed, hresult⟩ := hc
  rw [hy] at hgrows hclosed hresult
  exact ⟨hadvances, hgrows, hclosed, hpost a rfl, hresult a rfl⟩

/-- The run on record does as the watched one, and the record stays tied to the journal. -/
def Attends {α : Type} (w : Watch) (t : Record) (x : WatchedRun α) (y : RecordedRun α) : Prop :=
  Matches Tied id w t x y id

section Rules

variable {α β : Type} {programs : List Program} {free : Option FrameRef} {w : Watch} {t : Record}
  {x : WatchedRun α} {y : RecordedRun α}

lemma attends_pure (h : Tied w t) (a : α) : Attends w t (pure a) (pure a) :=
  matches_pure h rfl

lemma attends_throw (h : Tied w t) (halt : Halt) :
    Attends w t (throw halt : WatchedRun α) (throw halt) :=
  matches_throw id h rfl

lemma Attends.bind {f : α → WatchedRun β} {g : α → RecordedRun β} {post : α → Watch → Prop}
    (h : Attends w t x y) (hs : Sure programs free w x post)
    (hf : ∀ a w' t', Advances programs free w w' → w.machine.Grows w'.machine → w'.machine.Closed →
      post a w' → Tied w' t' → Attends w' t' (f a) (g a)) :
    Attends w t (x >>= f) (y >>= g) := by
  refine Matches.bind h fun a w' t' hx htied => ?_
  obtain ⟨hadvances, hgrows, hclosed, hpost⟩ := hs a w' hx
  exact hf a w' t' hadvances hgrows hclosed hpost htied

lemma Attends.yield {f : α → β} (h : Attends w t x y) :
    Attends w t (x >>= fun a => pure (f a)) (y >>= fun a => pure (f a)) :=
  Matches.bind h fun _ _ _ _ htied => attends_pure htied _

lemma attends_lift (h : Tied w t) {x : Run α} (hx : w.machine.Steps free (outcome x w.machine).2) :
    Attends w t (WatchedRun.lift x) (RecordedRun.lift x) := by
  have hresult : outcome (RecordedRun.lift x) t =
      ((outcome x t.machine).1, { t with machine := (outcome x t.machine).2 }) := rfl
  constructor <;> rw [hresult, WatchedRun.outcome_lift, h.machine]
  · rcases (outcome x w.machine).1 with _ | _ <;> rfl
  · exact h.steps hx

lemma attends_quiet (h : Tied w t) {x : Run α} (hx : Run.Quiet x) :
    Attends w t (WatchedRun.lift x) (RecordedRun.lift x) :=
  attends_lift h (hx w.machine)

lemma attends_lift_bind (free : Option FrameRef) (h : Tied w t) {x : Run α} {a : α} {m : Machine}
    (hx : outcome x w.machine = (.ok a, m)) (hm : w.machine.Steps free m) {f : α → WatchedRun β}
    {g : α → RecordedRun β}
    (hf : Tied { w with machine := m } { t with machine := m } →
      Attends { w with machine := m } { t with machine := m } (f a) (g a)) :
    Attends w t (WatchedRun.lift x >>= f) (RecordedRun.lift x >>= g) := by
  have hlift : Attends w t (WatchedRun.lift x) (RecordedRun.lift x) := attends_lift h (by rwa [hx])
  have hrecord : outcome (RecordedRun.lift x) t = (.ok a, { t with machine := m }) := by
    change ((outcome x t.machine).1, { t with machine := (outcome x t.machine).2 }) = _
    rw [h.machine, hx]
  obtain ⟨hresult, hstates⟩ := hf (h.steps hm)
  constructor <;> rw [outcome_bind, outcome_bind, WatchedRun.outcome_lift, hx, hrecord]
  · exact hresult
  · exact hstates

lemma attends_get {f : Watch → WatchedRun α} {g : Record → RecordedRun α}
    (h : Attends w t (f w) (g t)) : Attends w t (get >>= f) (get >>= g) :=
  matches_get h

lemma attends_get_right {g : Record → RecordedRun α} (h : Attends w t x (g t)) :
    Attends w t x (get >>= g) :=
  ⟨h.result, h.states⟩

lemma attends_require (h : Tied w t) {found : Option α} {cause : RuntimeError.Cause} {line : Nat}
    {f : α → WatchedRun β} {g : α → RecordedRun β}
    (hf : ∀ a, found = some a → Attends w t (f a) (g a)) :
    Attends w t (WatchedRun.lift (Run.require found cause line) >>= f)
      (RecordedRun.lift (Run.require found cause line) >>= g) := by
  cases found with
  | some a => exact hf a rfl
  | none => exact attends_throw h _

lemma attends_fail (h : Tied w t) (cause : RuntimeError.Cause) (line : Nat) :
    Attends w t (WatchedRun.lift (Run.fail cause line) : WatchedRun α)
      (RecordedRun.lift (Run.fail cause line)) :=
  attends_throw h _

lemma attends_within (h : Tied w t) {frame : FrameRef}
    (hb : Attends { w with machine.current := frame } { t with machine.current := frame } x y) :
    Attends w t (WatchedRun.within frame x) (RecordedRun.within frame y) := by
  obtain ⟨machine, receivers, made, occasions⟩ := t
  obtain rfl : machine = w.machine := h.machine
  exact ⟨hb.result, hb.states.setCurrent w.machine.current⟩

lemma Attends.noted (h : Tied w t) {node : Expr} {site : Site} {receiver : Option Receiver}
    (hn : Attends { w with journal.moments := ⟨node, site, w.machine⟩ :: w.journal.moments }
      { t with occasions := ⟨node, receiver, w.machine⟩ :: t.occasions } x y) :
    Attends w t (WatchedRun.note node site >>= fun _ => x)
      (RecordedRun.note receiver node >>= fun _ => y) := by
  obtain ⟨machine, receivers, made, occasions⟩ := t
  obtain rfl : machine = w.machine := h.machine
  exact ⟨hn.result, hn.states⟩

lemma Attends.notedAssignment {node : Expr} {site : Site}
    (hn : Attends { w with journal.assignments := ⟨node, site, w.machine⟩ :: w.journal.assignments }
      t x y) :
    Attends w t (WatchedRun.noteAssignment node site >>= fun _ => x) y :=
  ⟨hn.result, hn.states⟩

end Rules

variable {programs : List Program} {fuel : Nat} {w w' : Watch} {t : Record} {site : Site}
  {receiver : Option Receiver}

namespace Attending

lemma advances (h : Attending programs receiver site w) (ha : Advances programs none w w')
    (hc : w'.machine.Closed) : Attending programs receiver site w' :=
  ⟨h.ready.advances ha, hc, h.serves.follows ha.frames⟩

lemma evaluates (h : Attending programs receiver site w) {value : Expr} (hp : value.Proper)
    (hv : ∀ event ∈ value.events site.context site.scopes, Accepted programs event) :
    Sure programs none w (WatchedRun.evaluate fuel site value) fun a w' => True ∧ a.In w'.machine :=
  ((WatchedRun.all_safe programs fuel).1 w site value h.ready hp hv).sure
    ((WatchedRun.erasure fuel).evaluate site value) ((Run.all_close fuel).1 w.machine value h.closed)

lemma evaluatesEach (h : Attending programs receiver site w) {values : List Expr}
    (hp : Expr.ProperAll values)
    (hv : ∀ event ∈ Expr.eventsAll site.context site.scopes values, Accepted programs event) :
    Sure programs none w (WatchedRun.evaluateEach (WatchedRun.evaluate fuel site) values)
      fun results w' => True ∧ ∀ result ∈ results, result.In w'.machine :=
  (WatchedRun.evaluateEach_safe (WatchedRun.all_safe programs fuel).1 h.ready hp hv).sure
    (WatchedRun.evaluateEach_erases ((WatchedRun.erasure fuel).evaluate site) values)
    (Run.evaluateEach_closes (Run.all_close fuel).1 h.closed values)

lemma executes (h : Attending programs receiver site w) (hs : Scope.Settled site.scopes) {stated : Stmt}
    (hp : stated.Proper)
    (hv : ∀ event ∈ stated.events site.context site.scopes, Accepted programs event) :
    Sure programs (some w.machine.current) w (WatchedRun.execute fuel site stated)
      fun completion w' => (completion = .normal →
        (site.after stated).Holds w'.machine ∧ Scope.Settled (site.after stated).scopes) ∧
          completion.value.In w'.machine :=
  ((WatchedRun.all_safe programs fuel).2 w site stated h.ready hs hp hv).sure
    ((WatchedRun.erasure fuel).execute site stated) ((Run.all_close fuel).2 w.machine stated h.closed)

lemma after {free : Option FrameRef} {stated : Stmt} (h : Attending programs receiver site w)
    (hp : stated.Proper) (ha : Advances programs free w w') (hc : w'.machine.Closed)
    (hholds : (site.after stated).Holds w'.machine) :
    Attending programs receiver (site.after stated) w' where
  ready := ha.ready h.ready.ruled hholds
  closed := hc
  serves := (h.serves.after h.ready.holds.plain hp).follows ha.frames

end Attending

/-- With so much fuel expressions are evaluated on record, at any place and for any receiver. -/
def EvaluatesOnRecord (programs : List Program) (fuel : Nat) : Prop :=
  ∀ w t receiver site value, Attending programs receiver site w → value.Proper →
    (∀ event ∈ value.events site.context site.scopes, Accepted programs event) →
    Owns receiver value.nodes → Tied w t →
    Attends w t (WatchedRun.evaluate fuel site value) (RecordedRun.evaluate fuel receiver value)

def ExecutesOnRecord (programs : List Program) (fuel : Nat) : Prop :=
  ∀ w t receiver site stated, Attending programs receiver site w → Scope.Settled site.scopes →
    stated.Proper → (∀ event ∈ stated.events site.context site.scopes, Accepted programs event) →
    Owns receiver stated.nodes → Tied w t →
    Attends w t (WatchedRun.execute fuel site stated) (RecordedRun.execute fuel receiver stated)

lemma sequence_attends (hx : ExecutesOnRecord programs fuel) {body : List Stmt}
    (hr : Attending programs receiver site w) (hs : Scope.Settled site.scopes)
    (hp : Stmt.ProperAll body)
    (hv : ∀ event ∈ Stmt.eventsAll site.context site.scopes body, Accepted programs event)
    (ho : Owns receiver (Stmt.nodesAll body)) (h : Tied w t) :
    Attends w t (WatchedRun.sequence (WatchedRun.execute fuel) site body)
      (RecordedRun.sequence (RecordedRun.execute fuel receiver) body) := by
  induction body generalizing w t site with
  | nil => exact attends_pure h _
  | cons stated rest ih =>
    obtain ⟨hvs, hvr⟩ := List.forall_mem_append.mp hv
    have hfirst := hx w t receiver site stated hr hs hp.1 hvs
      (ho.mono (List.subset_append_left ..)) h
    refine hfirst.bind (hr.executes hs hp.1 hvs) fun completion w' t' ha _ hc ⟨hpost, _⟩ h' => ?_
    cases completion with
    | normal =>
      obtain ⟨hholds, hsettled⟩ := hpost rfl
      exact ih (hr.after hp.1 ha hc hholds) hsettled hp.2 hvr
        (ho.mono (List.subset_append_right ..)) h'
    | returned value => exact attends_pure h' _

lemma evaluateEach_attends (hx : EvaluatesOnRecord programs fuel) {values : List Expr}
    (hr : Attending programs receiver site w) (hp : Expr.ProperAll values)
    (hv : ∀ event ∈ Expr.eventsAll site.context site.scopes values, Accepted programs event)
    (ho : Owns receiver (Expr.nodesAll values)) (h : Tied w t) :
    Attends w t (WatchedRun.evaluateEach (WatchedRun.evaluate fuel site) values)
      (RecordedRun.evaluateEach (RecordedRun.evaluate fuel receiver) values) := by
  induction values generalizing w t with
  | nil => exact attends_pure h _
  | cons value rest ih =>
    obtain ⟨hvv, hvr⟩ := List.forall_mem_append.mp hv
    have hfirst := hx w t receiver site value hr hp.1 hvv (ho.mono (List.subset_append_left ..)) h
    refine hfirst.bind (hr.evaluates hp.1 hvv) fun first w' t' ha _ hc _ h' => ?_
    exact (ih (hr.advances ha hc) hp.2 hvr (ho.mono (List.subset_append_right ..)) h').yield

lemma newFunction_attends (h : Tied w t) (hs : Sound programs w) (closure : Closure)
    (hserves : site.Serves w.machine.frames receiver) (ho : Owns receiver closure.decl.nodes) :
    Attends w t (WatchedRun.newFunction closure site) (RecordedRun.newFunction receiver closure) := by
  obtain ⟨machine, receivers, made, occasions⟩ := t
  obtain rfl : machine = w.machine := h.machine
  exact ⟨rfl, h.newFunction hs hserves ho⟩

lemma Machine.ownerAmong?_of_classes {m m' : Machine} (h : m'.classes = m.classes) {name : String}
    {count : Nat} {ref : ClassRef} : m'.ownerAmong? name count ref = m.ownerAmong? name count ref := by
  induction count generalizing ref with
  | zero => rfl
  | succ count ih =>
    have hparent (type : Class) : type.superclass.bind (m'.ownerAmong? name count) =
        type.superclass.bind (m.ownerAmong? name count) := by
      cases type.superclass with
      | none => rfl
      | some parent => exact ih
    simp only [ownerAmong?, class?, h, hparent]

lemma Record.methodReceiver?_of_classes {t t' : Record} {ref : ClassRef} {name : String}
    {self : InstanceRef} (hc : t'.machine.classes = t.machine.classes) (hm : t'.made = t.made) :
    t'.methodReceiver? ref name self = t.methodReceiver? ref name self := by
  rw [methodReceiver?, methodReceiver?, hm, Machine.ownerAmong?_of_classes hc]

section Methods

variable {α : Type} {method : Closure} {type : Class} {place : ClassSite} {made : Made}

lemma bound_attends (h : Tied w t) (hs : Sound programs w) (hclosed : w.machine.Closed)
    (ht : place.Stands w.machine.frames) (hm : method.FitsClass programs place)
    (hmade : made.Fits w.machine.frames type place) {self : InstanceRef}
    (hself : Value.In w.machine (.instanceAt self)) {f : Closure × Site → WatchedRun α}
    {g : Closure → RecordedRun α}
    (hf : ∀ w' t' closure, Advances programs none w w' → w'.machine.Closed →
      w.machine.Grows w'.machine → closure.decl = method.decl →
      closure.Fits programs w'.machine.frames (place.bound closure) →
      (place.bound closure).Serves w'.machine.frames (some ⟨self, made⟩) → Tied w' t' →
      Attends w' t' (f (closure, place.bound closure)) (g closure)) :
    Attends w t (WatchedRun.bound method place self >>= f)
      (RecordedRun.lift (Run.bound method self) >>= g) := by
  have hbound : outcome (Run.bound method self) w.machine =
      (.ok { method with scope := w.machine.frames.next },
        { w.machine with
          frames := w.machine.frames.push method.scope
            ((∅ : Bindings Value).insert Scope.thisName (.instanceAt self)) }) := rfl
  have hfollows : Frames.Follows none w.machine.frames (w.machine.frames.push method.scope
      ((∅ : Bindings Value).insert Scope.thisName (.instanceAt self))) := Frames.follows_push ..
  have hthis : (w.machine.frames.push method.scope
      ((∅ : Bindings Value).insert Scope.thisName (.instanceAt self))).lookup? w.machine.frames.next
        Scope.thisName = some (.instanceAt self) := by
    rw [Frames.lookup?_push, if_pos rfl, Bindings.get?_insert, if_pos rfl]
  rw [WatchedRun.bound, bind_assoc]
  simp only [pure_bind]
  refine attends_lift_bind none h hbound ⟨hfollows, rfl, rfl, rfl, rfl⟩ fun h' => ?_
  exact hf _ _ _ (hs.advances_steps ⟨hfollows, rfl, rfl, rfl, rfl⟩)
    (hclosed.newFrame (Run.in_of_single hself) _) (.of_eq rfl rfl rfl) rfl (ht.fits_bound hm self)
    ((hmade.follows hfollows).serves hthis) h'

lemma boundValue_attends (h : Tied w t) (hs : Sound programs w) (hclosed : w.machine.Closed)
    (ht : place.Stands w.machine.frames) (hm : method.FitsClass programs place)
    (hmade : made.Fits w.machine.frames type place) (hmem : method.decl ∈ made.decl.methods)
    {self : InstanceRef} (hself : Value.In w.machine (.instanceAt self)) :
    Attends w t (WatchedRun.boundValue method place self)
      (RecordedRun.boundValue (some ⟨self, made⟩) method self) := by
  refine bound_attends h hs hclosed ht hm hmade hself
    fun w' t' closure ha _ _ hdecl _ hserves h' => ?_
  have howns : Owns (some ⟨self, made⟩) closure.decl.nodes := by
    rintro r ⟨⟩
    rw [hdecl]
    exact ClassDecl.nodes_subset hmem
  exact (newFunction_attends h' ha.sound closure hserves howns).yield

end Methods

section Invocations

lemma invoke_attends (hx : ExecutesOnRecord programs fuel) (h : Tied w t) (hs : Sound programs w)
    (hr : Ruled programs w.machine.table) (hclosed : w.machine.Closed) {closure : Closure}
    (hc : closure.Fits programs w.machine.frames site)
    (hserves : site.Serves w.machine.frames receiver) (ho : Owns receiver closure.decl.nodes)
    {arguments : List Value} (ha : ∀ value ∈ arguments, value.In w.machine)
    (hlen : arguments.length = closure.arity) :
    Attends w t (WatchedRun.invoke (WatchedRun.execute fuel) closure site arguments)
      (RecordedRun.invoke (RecordedRun.execute fuel receiver) closure arguments) := by
  obtain ⟨-, hparams, hproper⟩ := FunctionDecl.proper_iff.mp hc.proper
  have hfollows : Frames.Follows none w.machine.frames (w.machine.frames.push closure.scope
      ((∅ : Bindings Value).insertAll ((closure.decl.params.map Name.text).zip arguments))) :=
    Frames.follows_push ..
  refine attends_lift_bind none h (Run.outcome_newFrame ..) ⟨hfollows, rfl, rfl, rfl, rfl⟩
    fun h' => ?_
  have hinside := hclosed.newFrame
    (Run.in_of_parameters ha (closure.decl.params.map Name.text)) closure.scope
  rw [FunctionDecl.nodes_eq] at ho
  have hbody := sequence_attends hx
    ⟨hc.ready hs hr hlen, hinside.grows (.of_eq rfl rfl rfl) rfl rfl rfl,
      (hserves.inCall hparams w.machine.frames.next).follows hfollows⟩
    (Site.settled_inCall hc.settled _ _) hproper
    (fun event he => hc.accepted event (FunctionDecl.mem_events_of_body he)) ho
    (h'.setCurrent w.machine.frames.next)
  refine Matches.bind (attends_within h' hbody) fun completion w' t' _ h'' => ?_
  refine .ite (fun _ => attends_get ?_) fun _ => attends_pure h'' _
  rw [h''.machine]
  exact attends_pure h'' _

lemma call_attends (hx : ExecutesOnRecord programs fuel) (h : Tied w t) (hs : Sound programs w)
    (hr : Ruled programs w.machine.table) (hclosed : w.machine.Closed) {callable : Callable}
    {place : ClassSite}
    (hf : ∀ closure, callable = .function closure → closure.Fits programs w.machine.frames site ∧
      site.Serves w.machine.frames receiver ∧ Owns receiver closure.decl.nodes)
    (hc : ∀ ref initializer, callable = .construct ref initializer →
      Value.In w.machine (.classAt ref) ∧ ∀ method, initializer = some method →
        w.machine.method? ref initializerName = some method ∧
          place = w.methodSite ref initializerName)
    {arguments : List Value} (ha : ∀ value ∈ arguments, value.In w.machine)
    (hlen : arguments.length = callable.arity) :
    Attends w t (WatchedRun.call (WatchedRun.execute fuel) callable site place arguments)
      (RecordedRun.call (RecordedRun.execute fuel) callable receiver arguments) := by
  cases callable with
  | native primitive =>
    cases primitive
    exact Matches.map (attends_quiet h Run.quiet_readClock) fun _ => rfl
  | function closure =>
    obtain ⟨hfits, hserves, howns⟩ := hf closure rfl
    exact invoke_attends hx h hs hr hclosed hfits hserves howns ha hlen
  | construct ref initializer =>
    obtain ⟨hin, hmethod⟩ := hc ref initializer rfl
    have hquiet := Run.quiet_newInstance ref w.machine
    have hnew : outcome (Run.newInstance ref) w.machine =
        (.ok ⟨w.machine.instances.size⟩,
          { w.machine with instances := w.machine.instances.push ⟨ref, ∅⟩ }) := rfl
    rw [hnew] at hquiet
    refine attends_lift_bind none h hnew hquiet fun h' => ?_
    cases initializer with
    | none => exact attends_pure h' _
    | some method =>
      obtain ⟨hfound, rfl⟩ := hmethod method rfl
      have hsound := hs.steps hquiet
      obtain ⟨hstands, hfits⟩ := hs.fits_methodSite hfound
      obtain ⟨made, type, hreceiver, hmade, hmem⟩ :=
        h.methodReceiver hs hfound ⟨w.machine.instances.size⟩
      have hgrown : w.machine.Grows
          { w.machine with instances := w.machine.instances.push ⟨ref, ∅⟩ } :=
        ⟨Nat.le_refl _, Nat.le_refl _, by simp⟩
      have hself : Value.In { w.machine with instances := w.machine.instances.push ⟨ref, ∅⟩ }
          (.instanceAt ⟨w.machine.instances.size⟩) := by simp [Value.In]
      have hrecord : Record.methodReceiver?
          { t with machine := { w.machine with instances := w.machine.instances.push ⟨ref, ∅⟩ } } ref
          initializerName ⟨w.machine.instances.size⟩ =
            some ⟨⟨w.machine.instances.size⟩, made⟩ := by
        have hclasses : w.machine.classes = t.machine.classes := by rw [h.machine]
        rw [← hreceiver]
        apply Record.methodReceiver?_of_classes
        · exact hclasses
        · rfl
      refine attends_get_right (bound_attends h' hsound (hclosed.newInstance hin) hstands hfits hmade
        hself fun w' t' closure hadvances hclosed' hgrows hdecl hfits' hserves h'' => ?_)
      rw [hrecord]
      have harity : arguments.length = closure.arity := by
        rw [hlen, Closure.arity, hdecl]
        rfl
      have hgiven (value : Value) (hv : value ∈ arguments) : value.In w'.machine :=
        (ha value hv).grows (hgrown.trans hgrows)
      have howns : Owns (some ⟨⟨w.machine.instances.size⟩, made⟩) closure.decl.nodes := by
        rintro r ⟨⟩
        rw [hdecl]
        exact ClassDecl.nodes_subset hmem
      exact (invoke_attends hx h'' hadvances.sound (hadvances.ruled hr) hclosed' hfits' hserves howns hgiven
        harity).yield

lemma callValue_attends (hx : ExecutesOnRecord programs fuel) (h : Tied w t) (hs : Sound programs w)
    (hr : Ruled programs w.machine.table) (hclosed : w.machine.Closed) {callee : Value}
    (hc : callee.In w.machine) {arguments : List Value}
    (ha : ∀ value ∈ arguments, value.In w.machine) (line : Nat) :
    Attends w t (WatchedRun.callValue (WatchedRun.execute fuel) callee arguments line)
      (RecordedRun.callValue (RecordedRun.execute fuel) callee arguments line) := by
  refine attends_get ?_
  rw [h.machine]
  refine attends_require h fun callable hcallable => ?_
  refine .ite (fun hlen => ?_) fun _ => attends_fail h _ _
  refine call_attends hx h hs hr hclosed ?_ ?_ ha hlen
  · rintro closure rfl
    cases callee with
    | functionAt ref =>
      obtain ⟨closure', hclosure, heq⟩ := Option.map_eq_some_iff.mp hcallable
      rw [Callable.function.inj heq] at hclosure
      exact ⟨hs.fits_functionSite hclosure, h.functionReceiver hs hclosure⟩
    | nil | boolean | number | text | native | classAt | instanceAt =>
      simp [Machine.callable?] at hcallable
  · rintro ref initializer rfl
    cases callee with
    | classAt ref' =>
      obtain ⟨rfl, rfl⟩ := Callable.construct.inj (Option.some.inj hcallable)
      exact ⟨hc, fun method hmethod => ⟨hmethod, rfl⟩⟩
    | nil | boolean | number | text | native | functionAt | instanceAt =>
      simp [Machine.callable?] at hcallable

end Invocations

lemma getProperty_attends (h : Tied w t) (hs : Sound programs w) (hclosed : w.machine.Closed)
    {object : Value} (ho : object.In w.machine) (property : Name) :
    Attends w t (WatchedRun.getProperty object property)
      (RecordedRun.getProperty object property) := by
  cases object with
  | instanceAt self =>
    refine attends_get ?_
    rw [h.machine]
    refine attends_require h fun member hmember => ?_
    cases member with
    | field value => exact attends_pure h _
    | method method =>
      obtain ⟨found, hfound, hmember⟩ := Option.bind_eq_some_iff.mp hmember
      have hmethod : w.machine.method? found.classRef property.text = some method := by
        cases hfield : found.fields.get? property.text with
        | some value => simp [hfield] at hmember
        | none => simpa [hfield] using hmember
      have hsite : w.memberSite self property.text = w.methodSite found.classRef property.text := by
        rw [Watch.memberSite, hfound, Option.elim_some]
      obtain ⟨hstands, hfits⟩ := hs.fits_methodSite hmethod
      obtain ⟨made, type, hreceiver, hmade, hmem⟩ := h.methodReceiver hs hmethod self
      have hrecord : t.memberReceiver? self property.text = some ⟨self, made⟩ := by
        rw [Record.memberReceiver?, h.machine, hfound, Option.bind_some, hreceiver]
      simp only [hsite, hrecord]
      exact boundValue_attends h hs hclosed hstands hfits hmade hmem ho
  | nil | boolean | number | text | native | functionAt | classAt => exact attends_fail h _ _

lemma getSuper_attends (h : Tied w t) (hs : Sound programs w) (hclosed : w.machine.Closed)
    (keyword : Reference) (method : Name) :
    Attends w t (WatchedRun.getSuper keyword method) (RecordedRun.getSuper keyword method) := by
  refine attends_get ?_
  rw [h.machine]
  refine attends_require h fun (superclass, self) hsuper => attends_require h fun found hfound => ?_
  obtain ⟨hstands, hfits⟩ := hs.fits_methodSite hfound
  obtain ⟨made, type, hreceiver, hmade, hmem⟩ := h.methodReceiver hs hfound self
  rw [hreceiver]
  exact boundValue_attends h hs hclosed hstands hfits hmade hmem (hclosed.super? hsuper).2

end Lox
