import Lox.Proofs.Machine.Closing
import Lox.Proofs.Matching
import Lox.Proofs.Receiver.Nodes
import Lox.Proofs.Watch.Preservation

/-! What ties the record of a run to its journal: the frames made for the scopes around the code of a
function have the receiver for whom it runs, and the superclass of its class. -/

namespace Lox

/-- In the frames for the scopes around a place the innermost `this` is the instance of the receiver,
and `super` around it the superclass of its class. -/
inductive Serves (f : Frames) :
    EnclosingClass → Option Receiver → List Scope → List FrameRef → Prop
  | top : Serves f .none none [] []
  | block {owner receiver scope scopes frame frames} : Serves f owner receiver scopes frames →
      scope.HasPlainNames → Serves f owner receiver (scope :: scopes) (frame :: frames)
  | method {r scopes frame frames} : r.made.superclass = none →
      f.lookup? frame Scope.thisName = some (.instanceAt r.self) →
      Serves f .withoutSuperclass (some r) (Scope.single Scope.thisName :: scopes) (frame :: frames)
  | submethod {r parent scopes frame upper frames} : r.made.superclass = some parent →
      f.lookup? upper Scope.superName = some (.classAt parent) →
      f.lookup? frame Scope.thisName = some (.instanceAt r.self) →
      Serves f .withSuperclass (some r)
        (Scope.single Scope.thisName :: Scope.single Scope.superName :: scopes)
        (frame :: upper :: frames)

namespace Serves

variable {f g : Frames} {owner : EnclosingClass} {receiver : Option Receiver} {scopes : List Scope}
  {frames : List FrameRef} {free : Option FrameRef}

lemma follows (h : Serves f owner receiver scopes frames) (hf : Frames.Follows free f g) :
    Serves g owner receiver scopes frames := by
  have special {ref : FrameRef} {name : String} {value : Value} (hn : ¬ Scope.IsPlain name)
      (hvalue : f.lookup? ref name = some value) : g.lookup? ref name = some value := by
    have hlt : ref.index < f.all.size :=
      Frames.index_lt_of_binds (Option.isSome_iff_exists.mpr ⟨value, hvalue⟩)
    rw [hf.special ref name hlt hn, hvalue]
  induction h with
  | top => exact .top
  | block _ hplain ih => exact .block ih hplain
  | method hmade hthis => exact .method hmade (special Scope.thisName_not_plain hthis)
  | submethod hmade hsuper hthis =>
    exact .submethod hmade (special Scope.superName_not_plain hsuper)
      (special Scope.thisName_not_plain hthis)

lemma exists_this (h : Serves f owner receiver scopes frames) (ho : owner ≠ .none) :
    ∃ r distance frame, receiver = some r ∧
      scopes.findIdx? (·.contains Scope.thisName) = some distance ∧
      frames[distance]? = some frame ∧ f.lookup? frame Scope.thisName = some (.instanceAt r.self) := by
  have first {scopes : List Scope} : (Scope.single Scope.thisName :: scopes).findIdx?
      (·.contains Scope.thisName) = some 0 := by
    simp [List.findIdx?_cons, Scope.contains_single]
  induction h with
  | top => exact absurd rfl ho
  | block _ hplain ih =>
    obtain ⟨r, distance, frame, hr, hfound, hframe, hthis⟩ := ih ho
    refine ⟨r, distance + 1, frame, hr, ?_, hframe, hthis⟩
    rw [List.findIdx?_cons, if_neg (mt (hplain Scope.thisName) Scope.thisName_not_plain), hfound]
    rfl
  | @method r _ frame _ _ hthis => exact ⟨r, 0, frame, rfl, first, rfl, hthis⟩
  | @submethod r _ _ frame _ _ _ _ hthis => exact ⟨r, 0, frame, rfl, first, rfl, hthis⟩

lemma exists_super (h : Serves f .withSuperclass receiver scopes frames) :
    ∃ r parent distance frame upper, receiver = some r ∧ r.made.superclass = some parent ∧
      scopes.findIdx? (·.contains Scope.superName) = some (distance + 1) ∧
      frames[distance]? = some frame ∧
      f.lookup? frame Scope.thisName = some (.instanceAt r.self) ∧
      frames[distance + 1]? = some upper ∧
      f.lookup? upper Scope.superName = some (.classAt parent) := by
  generalize howner : EnclosingClass.withSuperclass = owner at h
  induction h with
  | top | method => simp at howner
  | block _ hplain ih =>
    obtain ⟨r, parent, distance, frame, upper, hr, hmade, hfound, hframe, hthis, hupper, hsuper⟩ :=
      ih howner
    refine ⟨r, parent, distance + 1, frame, upper, hr, hmade, ?_, hframe, hthis, hupper, hsuper⟩
    rw [List.findIdx?_cons, if_neg (mt (hplain Scope.superName) Scope.superName_not_plain), hfound]
    rfl
  | @submethod r parent _ frame upper _ hmade hsuper hthis =>
    refine ⟨r, parent, 0, frame, upper, rfl, hmade, ?_, rfl, hthis, rfl, hsuper⟩
    simp [List.findIdx?_cons, Scope.contains_single, Scope.thisName, Scope.superName]

lemma replace {scope inner : Scope} (h : Serves f owner receiver (scope :: scopes) frames)
    (hs : scope.HasPlainNames) (hi : inner.HasPlainNames) :
    Serves f owner receiver (inner :: scopes) frames := by
  cases h with
  | block h _ => exact .block h hi
  | method => exact absurd hs (Scope.single_not_plain Scope.thisName_not_plain)
  | submethod => exact absurd hs (Scope.single_not_plain Scope.thisName_not_plain)

end Serves

/-- For the class that was made so, at its place. -/
structure Made.Fits (made : Made) (f : Frames) (type : Class) (site : ClassSite) : Prop where
  root : site.superFrame = none → made.superclass = none
  super : ∀ frame, site.superFrame = some frame → ∃ parent, made.superclass = some parent ∧
    f.lookup? frame Scope.superName = some (.classAt parent)
  methods : ∀ name method, type.methods.get? name = some method → method.decl ∈ made.decl.methods

lemma Made.Fits.follows {made : Made} {f g : Frames} {free : Option FrameRef} {type : Class}
    {site : ClassSite} (h : made.Fits f type site) (hf : Frames.Follows free f g) :
    made.Fits g type site := by
  refine ⟨h.root, fun frame hframe => ?_, h.methods⟩
  obtain ⟨parent, hmade, hsuper⟩ := h.super frame hframe
  have hlt : frame.index < f.all.size :=
    Frames.index_lt_of_binds (Option.isSome_iff_exists.mpr ⟨_, hsuper⟩)
  exact ⟨parent, hmade, by rw [hf.special frame _ hlt Scope.superName_not_plain, hsuper]⟩

lemma Made.Fits.serves {made : Made} {f : Frames} {type : Class} {site : ClassSite}
    (h : made.Fits f type site) {closure : Closure} {self : InstanceRef}
    (hthis : f.lookup? closure.scope Scope.thisName = some (.instanceAt self)) :
    Serves f (site.bound closure).context.owner (some ⟨self, made⟩) (site.bound closure).scopes
      (site.bound closure).frames := by
  obtain ⟨site, _ | frame⟩ := site
  · exact .method (h.root rfl) hthis
  · obtain ⟨parent, hmade, hsuper⟩ := h.super frame rfl
    exact .submethod hmade hsuper hthis

/-- The receiver is the one of the code at the place. -/
def Site.Serves (site : Site) (f : Frames) (receiver : Option Receiver) : Prop :=
  Lox.Serves f site.context.owner receiver site.scopes site.frames

namespace Site.Serves

variable {site : Site} {f : Frames} {receiver : Option Receiver} {name : Name}

lemma inBlock (h : site.Serves f receiver) (frame : FrameRef) :
    (site.inBlock frame).Serves f receiver :=
  .block h Scope.hasPlainNames_empty

/-- Going on with more names in scope, as long as `this` and `super` are not among them. -/
lemma declaring (h : site.Serves f receiver) (hs : ∀ scope ∈ site.scopes.head?, scope.HasPlainNames)
    (hn : Scope.IsPlain name.text) : (site.declaring name).Serves f receiver := by
  obtain ⟨context, _ | ⟨scope, scopes⟩, frames⟩ := site
  · exact h
  · have hplain := hs scope rfl
    exact Lox.Serves.replace h hplain (hplain.insert hn .declared)

lemma introducing (h : site.Serves f receiver)
    (hs : ∀ scope ∈ site.scopes.head?, scope.HasPlainNames) (hn : Scope.IsPlain name.text) :
    (site.introducing name).Serves f receiver := by
  obtain ⟨context, _ | ⟨scope, scopes⟩, frames⟩ := site
  · exact h
  · have hplain := hs scope rfl
    exact Lox.Serves.replace h hplain ((hplain.insert hn .declared).insert hn .defined)

lemma after (h : site.Serves f receiver) (hs : ∀ scope ∈ site.scopes.head?, scope.HasPlainNames)
    {stated : Stmt} (hp : stated.Proper) : (site.after stated).Serves f receiver := by
  cases stated with
  | varDecl name initial => exact h.introducing hs hp.1
  | functionDecl decl => exact h.introducing hs (FunctionDecl.proper_iff.mp hp).1
  | classDecl decl => exact h.introducing hs (ClassDecl.proper_iff.mp hp).1
  | expression | print | block | ret => exact h
  | ifElse | whileLoop =>
    rw [Site.after_eq rfl hp]
    exact h

lemma inCall (h : site.Serves f receiver) {params : List Name}
    (hp : ∀ param ∈ params, Scope.IsPlain param.text) (frame : FrameRef) :
    (site.inCall params frame).Serves f receiver := by
  obtain ⟨inner, hinner, hget⟩ := Scope.introduceAll_cons params ∅ site.scopes
  have hplain : inner.HasPlainNames := by
    intro name hname
    rw [Bindings.contains, hget] at hname
    split at hname
    · rename_i hmem
      obtain ⟨param, hparam, rfl⟩ := List.mem_map.mp hmem
      exact hp param hparam
    · simp at hname
  unfold Site.Serves
  simp only [Site.inCall, hinner]
  exact .block h hplain

end Site.Serves

/-- The record has the same machine as the journal, and tells for each function and each class there is
what is so at its place. -/
structure Tied (w : Watch) (t : Record) : Prop where
  machine : t.machine = w.machine
  sizeReceivers : t.receivers.size = w.machine.functions.size
  sizeMade : t.made.size = w.machine.classes.size
  functions : ∀ (i : Nat) (closure : Closure) (site : Site) (receiver : Option Receiver),
    w.machine.functions[i]? = some closure → w.journal.functions[i]? = some site →
    t.receivers[i]? = some receiver →
    site.Serves w.machine.frames receiver ∧ Owns receiver closure.decl.nodes
  classes : ∀ (i : Nat) (type : Class) (site : ClassSite) (made : Made),
    w.machine.classes[i]? = some type → w.journal.classes[i]? = some site → t.made[i]? = some made →
    made.Fits w.machine.frames type site
  occasions : ∀ o ∈ t.occasions, o.Means

lemma Machine.exists_owner {m : Machine} {name : String} {count : Nat} {ref : ClassRef}
    {method : Closure} (h : m.methodAmong? name count ref = some method) :
    ∃ owner type, m.ownerAmong? name count ref = some owner ∧ m.class? owner = some type ∧
      type.methods.get? name = some method := by
  induction count generalizing ref with
  | zero => simp [methodAmong?] at h
  | succ count ih =>
    obtain ⟨type, htype, h⟩ := Option.bind_eq_some_iff.mp h
    cases hown : type.methods.get? name with
    | some own =>
      obtain rfl : own = method := by simpa [hown] using h
      refine ⟨ref, type, ?_, htype, hown⟩
      rw [ownerAmong?, htype, Option.bind_some, if_pos (by simp [Bindings.contains, hown])]
    | none =>
      rw [hown, Option.none_or] at h
      obtain ⟨parent, hparent, h⟩ := Option.bind_eq_some_iff.mp h
      obtain ⟨owner, found, howner, hfound⟩ := ih h
      refine ⟨owner, found, ?_, hfound⟩
      rw [ownerAmong?, htype, Option.bind_some, if_neg (by simp [Bindings.contains, hown]), hparent,
        Option.bind_some, howner]

namespace Tied

variable {programs : List Program} {free : Option FrameRef} {w : Watch} {t : Record}

lemma steps (h : Tied w t) {m : Machine} (hm : w.machine.Steps free m) :
    Tied { w with machine := m } { t with machine := m } where
  machine := rfl
  sizeReceivers := by rw [hm.functions, h.sizeReceivers]
  sizeMade := by rw [hm.classes, h.sizeMade]
  functions i closure site receiver hc hs hr := by
    rw [hm.functions] at hc
    exact (h.functions i closure site receiver hc hs hr).imp_left (Serves.follows · hm.frames)
  classes i type site made ht hs hmade := by
    rw [hm.classes] at ht
    exact (h.classes i type site made ht hs hmade).follows hm.frames
  occasions := h.occasions

lemma setCurrent (h : Tied w t) (frame : FrameRef) :
    Tied { w with machine.current := frame } { t with machine.current := frame } where
  machine := congrArg (fun m : Machine => { m with current := frame }) h.machine
  sizeReceivers := h.sizeReceivers
  sizeMade := h.sizeMade
  functions := h.functions
  classes := h.classes
  occasions := h.occasions

lemma note (h : Tied w t) (moments assignments : List Moment) {o : Occasion} (ho : o.Means) :
    Tied { w with journal := { w.journal with moments, assignments } }
      { t with occasions := o :: t.occasions } :=
  ⟨h.machine, h.sizeReceivers, h.sizeMade, h.functions, h.classes,
    List.forall_mem_cons.mpr ⟨ho, h.occasions⟩⟩

lemma journal (h : Tied w t) (moments assignments : List Moment) :
    Tied { w with journal := { w.journal with moments, assignments } } t :=
  ⟨h.machine, h.sizeReceivers, h.sizeMade, h.functions, h.classes, h.occasions⟩

section Push

variable {α : Type} {xs : Array α} {x y : α} {i : Nat}

lemma eq_of_push (hi : i = xs.size) (h : (xs.push x)[i]? = some y) : y = x := by
  simpa [hi] using h.symm

lemma of_push (hi : i < xs.size) (h : (xs.push x)[i]? = some y) : xs[i]? = some y := by
  rwa [Array.getElem?_push, if_neg (Nat.ne_of_lt hi)] at h

end Push

lemma newFunction (h : Tied w t) (hs : Sound programs w) {closure : Closure} {site : Site}
    {receiver : Option Receiver} (hserves : site.Serves w.machine.frames receiver)
    (howns : Owns receiver closure.decl.nodes) :
    Tied
      { machine := { w.machine with functions := w.machine.functions.push closure }
        journal := { w.journal with functions := w.journal.functions.push site } }
      { t with
        machine := { w.machine with functions := w.machine.functions.push closure }
        receivers := t.receivers.push receiver } where
  machine := rfl
  sizeReceivers := by simp [h.sizeReceivers]
  sizeMade := h.sizeMade
  functions i closure' site' receiver' hc hj hr := by
    rcases Sound.getElem?_push_eq_some hc with ⟨hi, rfl⟩ | ⟨hi, hc⟩
    · obtain rfl := eq_of_push (hi.trans hs.sizeFunctions.symm) hj
      obtain rfl := eq_of_push (hi.trans h.sizeReceivers.symm) hr
      exact ⟨hserves, howns⟩
    · exact h.functions i closure' site' receiver' hc (of_push (hs.sizeFunctions ▸ hi) hj)
        (of_push (h.sizeReceivers ▸ hi) hr)
  classes := h.classes
  occasions := h.occasions

lemma newClass (h : Tied w t) (hs : Sound programs w) {type : Class} {site : ClassSite} {made : Made}
    (hfits : made.Fits w.machine.frames type site) :
    Tied
      { machine := { w.machine with classes := w.machine.classes.push type }
        journal := { w.journal with classes := w.journal.classes.push site } }
      { t with
        machine := { w.machine with classes := w.machine.classes.push type }
        made := t.made.push made } where
  machine := rfl
  sizeReceivers := h.sizeReceivers
  sizeMade := by simp [h.sizeMade]
  functions := h.functions
  classes i type' site' made' ht hj hm := by
    rcases Sound.getElem?_push_eq_some ht with ⟨hi, rfl⟩ | ⟨hi, ht⟩
    · obtain rfl := eq_of_push (hi.trans hs.sizeClasses.symm) hj
      obtain rfl := eq_of_push (hi.trans h.sizeMade.symm) hm
      exact hfits
    · exact h.classes i type' site' made' ht (of_push (hs.sizeClasses ▸ hi) hj)
        (of_push (h.sizeMade ▸ hi) hm)
  occasions := h.occasions

lemma functionReceiver (h : Tied w t) (hs : Sound programs w) {ref : FunctionRef} {closure : Closure}
    (hc : w.machine.function? ref = some closure) :
    (w.functionSite (.functionAt ref)).Serves w.machine.frames (t.receiver? (.functionAt ref)) ∧
      Owns (t.receiver? (.functionAt ref)) closure.decl.nodes := by
  obtain ⟨hlt, -⟩ := Array.getElem?_eq_some_iff.mp hc
  have hsite := Array.getElem?_eq_getElem (hs.sizeFunctions ▸ hlt)
  have hreceiver := Array.getElem?_eq_getElem (h.sizeReceivers ▸ hlt)
  rw [Watch.functionSite, Record.receiver?, hsite, hreceiver]
  exact h.functions ref.index closure _ _ hc hsite hreceiver

/-- A method that is found is one of the class that its receiver will be of. -/
lemma methodReceiver (h : Tied w t) (hs : Sound programs w) {ref : ClassRef} {name : String}
    {method : Closure} (hm : w.machine.method? ref name = some method) (self : InstanceRef) :
    ∃ made type, t.methodReceiver? ref name self = some ⟨self, made⟩ ∧
      made.Fits w.machine.frames type (w.methodSite ref name) ∧ method.decl ∈ made.decl.methods := by
  obtain ⟨owner, type, howner, htype, hown⟩ := Machine.exists_owner hm
  obtain ⟨hlt, -⟩ := Array.getElem?_eq_some_iff.mp htype
  have hsite := Array.getElem?_eq_getElem (hs.sizeClasses ▸ hlt)
  have hmade := Array.getElem?_eq_getElem (h.sizeMade ▸ hlt)
  have hfits := h.classes owner.index type _ _ htype hsite hmade
  refine ⟨_, type, ?_, ?_, hfits.methods name method hown⟩
  · rw [Record.methodReceiver?, h.machine, howner, Option.bind_some, hmade, Option.map_some]
  · rwa [Watch.methodSite, howner, Option.bind_some, hsite]

end Tied

end Lox
