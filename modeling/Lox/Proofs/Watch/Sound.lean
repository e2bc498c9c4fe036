import Lox.Proofs.Machine.Quiet
import Lox.Proofs.Watch.Moments

/-! A watch is sound if what is in its journal fits the machine: each function and each class there is
stands where the journal says, and all the moments agree. Steps of a run keep it sound. -/

namespace Lox

/-- The function is declared at the place. -/
structure Closure.Fits (programs : List Program) (f : Frames) (closure : Closure) (site : Site) :
    Prop where
  laid : Laid f site.context.owner site.scopes site.frames
  settled : Scope.Settled site.scopes
  scope : closure.scope = site.frames.headD .globals
  proper : closure.decl.Proper
  accepted : ∀ event ∈ closure.decl.events site.context site.scopes, Accepted programs event

/-- The method is one of a class that is declared at the place. -/
structure Closure.FitsClass (programs : List Program) (method : Closure) (site : ClassSite) :
    Prop where
  scope : method.scope = site.frames.headD .globals
  proper : method.decl.Proper
  accepted : ∀ event ∈ method.decl.events (site.bound method).context (site.bound method).scopes,
    Accepted programs event

/-- The frame for the superclass, if there is one, is made for a scope with `super`. -/
structure ClassSite.Stands (f : Frames) (site : ClassSite) : Prop where
  laid : Laid f site.site.context.owner site.site.scopes site.site.frames
  settled : Scope.Settled site.site.scopes
  super : ∀ frame, site.superFrame = some frame →
    f.enclosing? frame = some (site.site.frames.headD .globals) ∧
      ∃ parent, f.lookup? frame Scope.superName = some (.classAt parent)

structure Class.Fits (programs : List Program) (f : Frames) (type : Class) (site : ClassSite) :
    Prop where
  stands : site.Stands f
  methods : ∀ name method, type.methods.get? name = some method → method.FitsClass programs site

structure Sound (programs : List Program) (w : Watch) : Prop where
  nonempty : FrameRef.globals.index < w.machine.frames.all.size
  root : w.machine.frames.enclosing? .globals = none
  sizeFunctions : w.journal.functions.size = w.machine.functions.size
  sizeClasses : w.journal.classes.size = w.machine.classes.size
  functions : ∀ (i : Nat) (closure : Closure) (site : Site), w.machine.functions[i]? = some closure →
    w.journal.functions[i]? = some site → closure.Fits programs w.machine.frames site
  classes : ∀ (i : Nat) (type : Class) (site : ClassSite), w.machine.classes[i]? = some type →
    w.journal.classes[i]? = some site → type.Fits programs w.machine.frames site
  moments : ∀ moment ∈ w.journal.moments, moment.Agrees programs
  assignments : ∀ moment ∈ w.journal.assignments, moment.Assigns programs

/-- What a part of a watched run does: the frames follow, and the watch is sound. -/
structure Advances (programs : List Program) (free : Option FrameRef) (w w' : Watch) : Prop where
  frames : Frames.Follows free w.machine.frames w'.machine.frames
  current : w'.machine.current = w.machine.current
  table : w'.machine.table = w.machine.table
  sound : Sound programs w'

section Fits

variable {programs : List Program} {free : Option FrameRef} {f g : Frames}

lemma Closure.Fits.follows {closure : Closure} {site : Site} (h : closure.Fits programs f site)
    (hf : Frames.Follows free f g) : closure.Fits programs g site :=
  ⟨h.laid.follows hf, h.settled, h.scope, h.proper, h.accepted⟩

lemma ClassSite.Stands.follows {site : ClassSite} (h : site.Stands f)
    (hf : Frames.Follows free f g) : site.Stands g where
  laid := h.laid.follows hf
  settled := h.settled
  super frame hframe := by
    obtain ⟨henclosing, parent, hparent⟩ := h.super frame hframe
    have hlt := Frames.index_lt_of_enclosing? henclosing
    rw [hf.enclosing frame hlt, hf.special frame _ hlt Scope.superName_not_plain]
    exact ⟨henclosing, parent, hparent⟩

lemma Class.Fits.follows {type : Class} {site : ClassSite} (h : type.Fits programs f site)
    (hf : Frames.Follows free f g) : type.Fits programs g site :=
  ⟨h.stands.follows hf, h.methods⟩

lemma ClassSite.Stands.fits_bound {site : ClassSite} (h : site.Stands f) {method : Closure}
    (hm : method.FitsClass programs site) (self : InstanceRef) :
    Closure.Fits programs
      (f.push method.scope ((∅ : Bindings Value).insert Scope.thisName (.instanceAt self)))
      { method with scope := f.next } (site.bound { method with scope := f.next }) := by
  have hthis : (f.push method.scope
      ((∅ : Bindings Value).insert Scope.thisName (.instanceAt self))).lookup? f.next
        Scope.thisName = some (.instanceAt self) := by
    rw [Frames.lookup?_push, if_pos rfl, Bindings.get?_insert, if_pos rfl]
  have henclosing : (f.push method.scope
      ((∅ : Bindings Value).insert Scope.thisName (.instanceAt self))).enclosing? f.next =
        some (site.frames.headD .globals) := by
    rw [Frames.enclosing?_push, if_pos rfl, hm.scope]
  have hpushed : Frames.Follows none f (f.push method.scope
      ((∅ : Bindings Value).insert Scope.thisName (.instanceAt self))) := Frames.follows_push ..
  have hstands := h.follows hpushed
  refine ⟨?_, ?_, rfl, hm.proper, hm.accepted⟩
  · obtain ⟨site, _ | frame⟩ := site
    · exact .method hstands.laid henclosing hthis
    · obtain ⟨hupper, parent, hsuper⟩ := hstands.super frame rfl
      exact .submethod hstands.laid hupper hsuper henclosing hthis
  · refine Scope.settled_single _ ?_
    obtain ⟨site, _ | frame⟩ := site
    · exact h.settled
    · exact Scope.settled_single _ h.settled

end Fits

namespace Sound

variable {programs : List Program} {free : Option FrameRef} {w : Watch}

lemma steps (h : Sound programs w) {m : Machine} (hm : w.machine.Steps free m) :
    Sound programs { w with machine := m } where
  nonempty := Nat.lt_of_lt_of_le h.nonempty hm.frames.size
  root := by rw [hm.frames.enclosing .globals h.nonempty, h.root]
  sizeFunctions := by rw [hm.functions, h.sizeFunctions]
  sizeClasses := by rw [hm.classes, h.sizeClasses]
  functions i closure site hc hs := by
    rw [hm.functions] at hc
    exact (h.functions i closure site hc hs).follows hm.frames
  classes i type site hc hs := by
    rw [hm.classes] at hc
    exact (h.classes i type site hc hs).follows hm.frames
  moments := h.moments
  assignments := h.assignments

lemma newFrame (h : Sound programs w) (enclosing : FrameRef) (bindings : Bindings Value) :
    Sound programs { w with machine.frames := w.machine.frames.push enclosing bindings } := by
  have hpushed : Frames.Follows none w.machine.frames (w.machine.frames.push enclosing bindings) :=
    Frames.follows_push ..
  exact h.steps ⟨hpushed, rfl, rfl, rfl, rfl⟩

lemma advances_steps (h : Sound programs w) {m : Machine} (hm : w.machine.Steps free m) :
    Advances programs free w { w with machine := m } :=
  ⟨hm.frames, hm.current, hm.table, h.steps hm⟩

lemma setCurrent (h : Sound programs w) (frame : FrameRef) :
    Sound programs { w with machine.current := frame } :=
  ⟨h.nonempty, h.root, h.sizeFunctions, h.sizeClasses, h.functions, h.classes, h.moments,
    h.assignments⟩

lemma note (h : Sound programs w) {moment : Moment} (hm : moment.Agrees programs) :
    Sound programs { w with journal.moments := moment :: w.journal.moments } :=
  { h with moments := List.forall_mem_cons.mpr ⟨hm, h.moments⟩ }

lemma noteAssignment (h : Sound programs w) {moment : Moment} (hm : moment.Assigns programs) :
    Sound programs { w with journal.assignments := moment :: w.journal.assignments } :=
  { h with assignments := List.forall_mem_cons.mpr ⟨hm, h.assignments⟩ }

lemma getElem?_push_eq_some {α : Type} {xs : Array α} {x y : α} {i : Nat}
    (h : (xs.push x)[i]? = some y) : i = xs.size ∧ y = x ∨ i < xs.size ∧ xs[i]? = some y := by
  rw [Array.getElem?_push] at h
  split at h
  · exact .inl ⟨by assumption, (Option.some.inj h).symm⟩
  · exact .inr ⟨(Array.getElem?_eq_some_iff.mp h).1, h⟩

lemma newFunction (h : Sound programs w) {closure : Closure} {site : Site}
    (hc : closure.Fits programs w.machine.frames site) :
    Sound programs
      { machine := { w.machine with functions := w.machine.functions.push closure }
        journal := { w.journal with functions := w.journal.functions.push site } } :=
  { h with
    sizeFunctions := by simp [h.sizeFunctions]
    functions := by
      intro i closure' site' hclosure hsite
      have hsize := h.sizeFunctions
      rcases getElem?_push_eq_some hclosure with ⟨hi, rfl⟩ | ⟨hi, hclosure⟩ <;>
        rcases getElem?_push_eq_some hsite with ⟨hj, rfl⟩ | ⟨hj, hsite⟩
      · exact hc
      · omega
      · omega
      · exact h.functions i closure' site' hclosure hsite }

lemma newClass (h : Sound programs w) {type : Class} {site : ClassSite}
    (hc : type.Fits programs w.machine.frames site) :
    Sound programs
      { machine := { w.machine with classes := w.machine.classes.push type }
        journal := { w.journal with classes := w.journal.classes.push site } } :=
  { h with
    sizeClasses := by simp [h.sizeClasses]
    classes := by
      intro i type' site' htype hsite
      have hsize := h.sizeClasses
      rcases getElem?_push_eq_some htype with ⟨hi, rfl⟩ | ⟨hi, htype⟩ <;>
        rcases getElem?_push_eq_some hsite with ⟨hj, rfl⟩ | ⟨hj, hsite⟩
      · exact hc
      · omega
      · omega
      · exact h.classes i type' site' htype hsite }

lemma fits_functionSite (h : Sound programs w) {ref : FunctionRef} {closure : Closure}
    (hc : w.machine.function? ref = some closure) :
    closure.Fits programs w.machine.frames (w.functionSite (.functionAt ref)) := by
  obtain ⟨hlt, -⟩ := Array.getElem?_eq_some_iff.mp hc
  rw [← h.sizeFunctions] at hlt
  have hsite := Array.getElem?_eq_getElem hlt
  rw [Watch.functionSite, hsite]
  exact h.functions ref.index closure _ hc hsite

lemma fits_owner (h : Sound programs w) {name : String} {method : Closure} {count : Nat}
    {ref : ClassRef} (hm : w.machine.methodAmong? name count ref = some method) :
    ∃ owner site, w.machine.ownerAmong? name count ref = some owner ∧
      w.journal.classes[owner.index]? = some site ∧ site.Stands w.machine.frames ∧
      method.FitsClass programs site := by
  induction count generalizing ref with
  | zero => simp [Machine.methodAmong?] at hm
  | succ count ih =>
    obtain ⟨type, htype, hm⟩ := Option.bind_eq_some_iff.mp hm
    cases hown : type.methods.get? name with
    | some own =>
      obtain rfl : own = method := by simpa [hown] using hm
      obtain ⟨hlt, -⟩ := Array.getElem?_eq_some_iff.mp htype
      rw [← h.sizeClasses] at hlt
      have hsite := Array.getElem?_eq_getElem hlt
      have hfits := h.classes ref.index type _ htype hsite
      refine ⟨ref, _, ?_, hsite, hfits.stands, hfits.methods name own hown⟩
      rw [Machine.ownerAmong?, htype, Option.bind_some, if_pos (by simp [Bindings.contains, hown])]
    | none =>
      rw [hown, Option.none_or] at hm
      obtain ⟨parent, hparent, hm⟩ := Option.bind_eq_some_iff.mp hm
      obtain ⟨owner, site, howner, hsite⟩ := ih hm
      refine ⟨owner, site, ?_, hsite⟩
      rw [Machine.ownerAmong?, htype, Option.bind_some, if_neg (by simp [Bindings.contains, hown]),
        hparent, Option.bind_some, howner]

lemma fits_methodSite (h : Sound programs w) {ref : ClassRef} {name : String} {method : Closure}
    (hm : w.machine.method? ref name = some method) :
    (w.methodSite ref name).Stands w.machine.frames ∧
      method.FitsClass programs (w.methodSite ref name) := by
  obtain ⟨owner, site, howner, hsite, hfits⟩ := h.fits_owner hm
  rw [Watch.methodSite, howner, Option.bind_some, hsite]
  exact hfits

end Sound

namespace Advances

variable {programs : List Program} {free : Option FrameRef} {w w' w'' : Watch}

lemma refl (h : Sound programs w) : Advances programs free w w :=
  ⟨.refl free w.machine.frames, rfl, rfl, h⟩

lemma trans (h : Advances programs free w w') (h' : Advances programs free w' w'') :
    Advances programs free w w'' :=
  ⟨h.frames.trans h'.frames, h'.current.trans h.current, h'.table.trans h.table, h'.sound⟩

lemma trans_fresh {ref : FrameRef} (h : Advances programs free w w')
    (h' : Advances programs (some ref) w' w'') (hr : w.machine.frames.all.size ≤ ref.index) :
    Advances programs free w w'' :=
  ⟨h.frames.trans_fresh h'.frames hr, h'.current.trans h.current, h'.table.trans h.table, h'.sound⟩

lemma of_none (h : Advances programs none w w') : Advances programs free w w' :=
  ⟨h.frames.of_none, h.current, h.table, h.sound⟩

end Advances

end Lox
