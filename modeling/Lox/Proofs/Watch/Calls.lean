import Lox.Proofs.Watch.Safe

/-! Calls and declarations are safe if the statements that they execute are. -/

namespace Lox

/-- A place where a watched run is about to go on. -/
structure Ready (programs : List Program) (site : Site) (w : Watch) : Prop where
  sound : Sound programs w
  ruled : Ruled programs w.machine.table
  holds : site.Holds w.machine

namespace Advances

variable {programs : List Program} {free : Option FrameRef} {site : Site} {w w' : Watch}

lemma ruled (h : Advances programs free w w') (hr : Ruled programs w.machine.table) :
    Ruled programs w'.machine.table := by
  rw [h.table]
  exact hr

lemma ready (h : Advances programs free w w') (hr : Ruled programs w.machine.table)
    (hholds : site.Holds w'.machine) : Ready programs site w' :=
  ⟨h.sound, h.ruled hr, hholds⟩

end Advances

namespace Ready

variable {programs : List Program} {site : Site} {w w' : Watch}

lemma advances (h : Ready programs site w) (ha : Advances programs none w w') :
    Ready programs site w' :=
  ha.ready h.ruled (h.holds.follows ha.frames ha.current)

lemma current_lt (h : Ready programs site w) :
    w.machine.current.index < w.machine.frames.all.size := by
  obtain ⟨context, _ | ⟨scope, scopes⟩, frames⟩ := site
  · have hlength : frames.length = 0 := h.holds.laid.length_eq
    obtain rfl := List.length_eq_zero_iff.mp hlength
    rw [h.holds.current]
    exact h.sound.nonempty
  · obtain ⟨frame, outer, rfl, -, henclosing, -⟩ := h.holds.laid.of_plain (h.holds.plain scope rfl)
    rw [h.holds.current]
    exact Frames.index_lt_of_enclosing? henclosing

lemma inBlock (h : Ready programs site w) (hs : Scope.Settled site.scopes) :
    Ready programs (site.inBlock w.machine.frames.next)
      { w with machine :=
        { w.machine with
          frames := w.machine.frames.push w.machine.current ∅
          current := w.machine.frames.next } } :=
  ⟨(h.sound.newFrame ..).setCurrent _, h.ruled, h.holds.inBlock hs⟩

end Ready

lemma Closure.Fits.ready {programs : List Program} {site : Site} {w : Watch} {closure : Closure}
    (h : closure.Fits programs w.machine.frames site) (hs : Sound programs w)
    (hr : Ruled programs w.machine.table) {arguments : List Value}
    (hlen : arguments.length = closure.arity) :
    Ready programs (site.inCall closure.decl.params w.machine.frames.next)
      { w with machine :=
        { w.machine with
          frames := w.machine.frames.push closure.scope
            ((∅ : Bindings Value).insertAll ((closure.decl.params.map Name.text).zip arguments))
          current := w.machine.frames.next } } where
  sound := (hs.newFrame ..).setCurrent _
  ruled := hr
  holds := by
    obtain ⟨-, hparams, -⟩ := FunctionDecl.proper_iff.mp h.proper
    rw [h.scope]
    exact Site.holds_inCall h.laid h.settled hparams hlen

namespace WatchedRun

variable {α β : Type} {programs : List Program} {free : Option FrameRef} {w : Watch} {site : Site}

/-- Evaluation at any place is safe, of proper expressions to which resolution came. -/
def EvaluatesSafely (programs : List Program) (run : Site → Expr → WatchedRun Value) : Prop :=
  ∀ w site value, Ready programs site w → value.Proper →
    (∀ event ∈ value.events site.context site.scopes, Accepted programs event) →
    Safe programs none w (run site value) fun _ _ => True

/-- Execution at any place is safe, of proper statements to which resolution came, and after a
statement that does not return the machine is at the place after it. -/
def ExecutesSafely (programs : List Program) (run : Site → Stmt → WatchedRun Completion) : Prop :=
  ∀ w site stated, Ready programs site w → Scope.Settled site.scopes → stated.Proper →
    (∀ event ∈ stated.events site.context site.scopes, Accepted programs event) →
    Safe programs (some w.machine.current) w (run site stated) fun completion w' =>
      completion = .normal →
        (site.after stated).Holds w'.machine ∧ Scope.Settled (site.after stated).scopes

lemma sequence_safe {run : Site → Stmt → WatchedRun Completion}
    (h : ExecutesSafely programs run) {body : List Stmt} (hr : Ready programs site w)
    (hs : Scope.Settled site.scopes) (hp : Stmt.ProperAll body)
    (hv : ∀ event ∈ Stmt.eventsAll site.context site.scopes body, Accepted programs event) :
    Safe programs (some w.machine.current) w (sequence run site body) fun _ _ => True := by
  induction body generalizing w site with
  | nil => exact safe_pure hr.sound trivial
  | cons stated rest ih =>
    have hfirst := h w site stated hr hs hp.1 fun event he => hv event (List.mem_append_left _ he)
    refine hfirst.bind fun completion w' hadvances hpost => ?_
    cases completion with
    | normal =>
      obtain ⟨hholds, hsettled⟩ := hpost rfl
      rw [← hadvances.current]
      exact ih (hadvances.ready hr.ruled hholds) hsettled hp.2
        fun event he => hv event (List.mem_append_right _ he)
    | returned value => exact safe_pure hadvances.sound trivial

lemma evaluateEach_safe {run : Site → Expr → WatchedRun Value} (h : EvaluatesSafely programs run)
    {values : List Expr} (hr : Ready programs site w) (hp : Expr.ProperAll values)
    (hv : ∀ event ∈ Expr.eventsAll site.context site.scopes values, Accepted programs event) :
    Safe programs none w (evaluateEach (run site) values) fun _ _ => True := by
  induction values generalizing w with
  | nil => exact safe_pure hr.sound trivial
  | cons value rest ih =>
    have hfirst := h w site value hr hp.1 fun event he => hv event (List.mem_append_left _ he)
    refine hfirst.bind fun _ w' hadvances _ => ?_
    have hrest := ih (hr.advances hadvances) hp.2 fun event he =>
      hv event (List.mem_append_right _ he)
    exact hrest.bind fun _ w'' hadvances' _ => safe_pure hadvances'.sound trivial

lemma newFunction_safe (hs : Sound programs w) {closure : Closure}
    (hc : closure.Fits programs w.machine.frames site) :
    Safe programs free w (newFunction closure site) fun _ _ => True :=
  ⟨⟨.refl free w.machine.frames, rfl, rfl, hs.newFunction hc⟩, fun _ _ => trivial⟩

lemma bound_safe (hs : Sound programs w) {method : Closure} {type : ClassSite}
    (ht : type.Stands w.machine.frames) (hm : method.FitsClass programs type) (self : InstanceRef) :
    Safe programs free w (bound method type self) fun (closure, site) w' =>
      closure.Fits programs w'.machine.frames site ∧ closure.decl = method.decl := by
  have hbound : outcome (Run.bound method self) w.machine =
      (.ok { method with scope := w.machine.frames.next },
        { w.machine with
          frames := w.machine.frames.push method.scope
            ((∅ : Bindings Value).insert Scope.thisName (.instanceAt self)) }) := rfl
  refine safe_lift_bind hs hbound ⟨Frames.follows_push _ _, rfl, rfl, rfl, rfl⟩ fun hsound => ?_
  exact safe_pure hsound ⟨ht.fits_bound hm self, rfl⟩

lemma boundValue_safe (hs : Sound programs w) {method : Closure} {type : ClassSite}
    (ht : type.Stands w.machine.frames) (hm : method.FitsClass programs type) (self : InstanceRef) :
    Safe programs free w (boundValue method type self) fun _ _ => True := by
  refine (bound_safe hs ht hm self).bind fun (closure, site) w' hadvances ⟨hfits, _⟩ => ?_
  exact (newFunction_safe hadvances.sound hfits).bind fun _ w'' hadvances' _ =>
    safe_pure hadvances'.sound trivial

section Calls

variable {run : Site → Stmt → WatchedRun Completion}

lemma invoke_safe (h : ExecutesSafely programs run) (hs : Sound programs w)
    (hr : Ruled programs w.machine.table) {closure : Closure}
    (hc : closure.Fits programs w.machine.frames site) {arguments : List Value}
    (hlen : arguments.length = closure.arity) :
    Safe programs none w (invoke run closure site arguments) fun _ _ => True := by
  obtain ⟨-, -, hbody⟩ := FunctionDecl.proper_iff.mp hc.proper
  refine safe_newFrame_bind hs fun _ => ?_
  have hbody := sequence_safe h (hc.ready hs hr hlen)
    (Site.settled_inCall hc.settled _ _) hbody fun event he =>
      hc.accepted event (FunctionDecl.mem_events_of_body he)
  refine (safe_within hbody).bind fun completion w'' hadvances' _ => ?_
  split
  · exact safe_get (safe_pure hadvances'.sound trivial)
  · exact safe_pure hadvances'.sound trivial

lemma call_safe (h : ExecutesSafely programs run) (hs : Sound programs w)
    (hr : Ruled programs w.machine.table) {callable : Callable} {type : ClassSite}
    (hf : ∀ closure, callable = .function closure → closure.Fits programs w.machine.frames site)
    (hc : ∀ ref method, callable = .construct ref (some method) →
      type.Stands w.machine.frames ∧ method.FitsClass programs type)
    {arguments : List Value} (hlen : arguments.length = callable.arity) :
    Safe programs none w (call run callable site type arguments) fun _ _ => True := by
  cases callable with
  | native primitive =>
    cases primitive
    have hclock : Run.Quiet (Value.number <$> Run.readClock) := by
      rw [← bind_pure_comp]
      exact Run.quiet_readClock.bind fun _ => Run.quiet_pure _
    exact safe_last hs hclock
  | function closure => exact invoke_safe h hs hr (hf closure rfl) hlen
  | construct ref initializer =>
    refine (safe_quiet hs (Run.quiet_newInstance ref)).bind fun self w' hadvances _ => ?_
    cases initializer with
    | none => exact safe_pure hadvances.sound trivial
    | some method =>
      obtain ⟨hstands, hmethod⟩ := hc ref method rfl
      have hstands' := hstands.follows hadvances.frames
      refine (bound_safe hadvances.sound hstands' hmethod self).bind
        fun (closure, site) w'' hadvances' ⟨hfits, hdecl⟩ => ?_
      have hruled := hadvances'.ruled (hadvances.ruled hr)
      have harity : arguments.length = closure.arity := by
        rw [hlen, Closure.arity, hdecl]
        rfl
      exact (invoke_safe h hadvances'.sound hruled hfits harity).bind fun _ _ hadvances'' _ =>
        safe_pure hadvances''.sound trivial

lemma callValue_safe (h : ExecutesSafely programs run) (hs : Sound programs w)
    (hr : Ruled programs w.machine.table) (callee : Value) (arguments : List Value) (line : Nat) :
    Safe programs none w (callValue run callee arguments line) fun _ _ => True := by
  refine safe_get (safe_require hs fun callable hcallable => ?_)
  split
  · rename_i hlen
    refine call_safe h hs hr ?_ ?_ hlen
    · rintro closure rfl
      cases callee with
      | functionAt ref =>
        obtain ⟨closure', hclosure, heq⟩ := Option.map_eq_some_iff.mp hcallable
        rw [Callable.function.inj heq] at hclosure
        exact hs.fits_functionSite hclosure
      | nil | boolean | number | text | native | classAt | instanceAt =>
        simp [Machine.callable?] at hcallable
    · rintro ref method rfl
      cases callee with
      | classAt ref' =>
        obtain ⟨-, hmethod⟩ := Callable.construct.inj (Option.some.inj hcallable)
        exact hs.fits_methodSite hmethod
      | nil | boolean | number | text | native | functionAt | instanceAt =>
        simp [Machine.callable?] at hcallable
  · exact safe_last hs (Run.quiet_fail _ _)

end Calls

lemma getProperty_safe (hs : Sound programs w) (object : Value) (property : Name) :
    Safe programs none w (getProperty object property) fun _ _ => True := by
  cases object with
  | instanceAt self =>
    refine safe_get (safe_require hs fun member hmember => ?_)
    cases member with
    | field value => exact safe_pure hs trivial
    | method closure =>
      obtain ⟨found, hfound, hmember⟩ := Option.bind_eq_some_iff.mp hmember
      have hmethod : w.machine.method? found.classRef property.text = some closure := by
        cases hfield : found.fields.get? property.text with
        | some value => simp [hfield] at hmember
        | none => simpa [hfield] using hmember
      have hfits := hs.fits_methodSite hmethod
      have hsite : w.memberSite self property.text = w.methodSite found.classRef property.text := by
        rw [Watch.memberSite, hfound, Option.elim_some]
      rw [← hsite] at hfits
      exact boundValue_safe hs hfits.1 hfits.2 self
  | nil | boolean | number | text | native | functionAt | classAt =>
    exact safe_last hs (Run.quiet_fail _ _)

lemma getSuper_safe (hs : Sound programs w) (keyword : Reference) (method : Name) :
    Safe programs none w (getSuper keyword method) fun _ _ => True := by
  refine safe_get (safe_require hs fun (superclass, self) _ => safe_require hs fun found hfound => ?_)
  obtain ⟨hstands, hfits⟩ := hs.fits_methodSite hfound
  exact boundValue_safe hs hstands hfits self

end WatchedRun

end Lox
