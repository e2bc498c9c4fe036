import Lox.Proofs.Watch.Erasure
import Lox.Proofs.Watch.Sound

/-! Parts of watched runs that keep the watch sound, however they end. -/

namespace Lox

namespace WatchedRun

variable {α β : Type} {programs : List Program} {free : Option FrameRef} {w : Watch}

/-- However the part of a run ends, the watch advances, and a result is as expected. -/
def Safe (programs : List Program) (free : Option FrameRef) (w : Watch) (x : WatchedRun α)
    (post : α → Watch → Prop) : Prop :=
  Advances programs free w (outcome x w).2 ∧
    ∀ a, (outcome x w).1 = .ok a → post a (outcome x w).2

lemma safe_pure {post : α → Watch → Prop} (hs : Sound programs w) {a : α} (h : post a w) :
    Safe programs free w (pure a) post := by
  refine ⟨.refl hs, fun b hb => ?_⟩
  rw [← Except.ok.inj hb]
  exact h

lemma safe_throw {post : α → Watch → Prop} (hs : Sound programs w) (halt : Halt) :
    Safe programs free w (throw halt) post :=
  ⟨.refl hs, fun _ hb => nomatch hb⟩

lemma Safe.weaken {x : WatchedRun α} {post post' : α → Watch → Prop}
    (h : Safe programs free w x post) (himp : ∀ a w', post a w' → post' a w') :
    Safe programs free w x post' :=
  ⟨h.1, fun a ha => himp a _ (h.2 a ha)⟩

lemma Safe.bind {x : WatchedRun α} {f : α → WatchedRun β} {post : α → Watch → Prop}
    {post' : β → Watch → Prop} (h : Safe programs free w x post)
    (hf : ∀ a w', Advances programs free w w' → post a w' → Safe programs free w' (f a) post') :
    Safe programs free w (x >>= f) post' := by
  unfold Safe at h
  rw [Safe, outcome_bind]
  rcases hx : outcome x w with ⟨_ | a, w'⟩ <;> rw [hx] at h <;> obtain ⟨hadvances, hpost⟩ := h
  · exact ⟨hadvances, fun _ hb => nomatch hb⟩
  · obtain ⟨hrest, hresult⟩ := hf a w' hadvances (hpost a rfl)
    exact ⟨hadvances.trans hrest, hresult⟩

/-- After its first part a run may give new names to a frame that was not there at first. -/
lemma Safe.bind_fresh {ref : FrameRef} (hr : w.machine.frames.all.size ≤ ref.index)
    {x : WatchedRun α} {f : α → WatchedRun β} {post : α → Watch → Prop} {post' : β → Watch → Prop}
    (h : Safe programs free w x post)
    (hf : ∀ a w', Advances programs free w w' → post a w' →
      Safe programs (some ref) w' (f a) post') :
    Safe programs free w (x >>= f) post' := by
  unfold Safe at h
  rw [Safe, outcome_bind]
  rcases hx : outcome x w with ⟨_ | a, w'⟩ <;> rw [hx] at h <;> obtain ⟨hadvances, hpost⟩ := h
  · exact ⟨hadvances, fun _ hb => nomatch hb⟩
  · obtain ⟨hrest, hresult⟩ := hf a w' hadvances (hpost a rfl)
    exact ⟨hadvances.trans_fresh hrest hr, hresult⟩

lemma safe_get {f : Watch → WatchedRun α} {post : α → Watch → Prop}
    (h : Safe programs free w (f w) post) : Safe programs free w (get >>= f) post := by
  rw [Safe, outcome_bind]
  exact h

lemma safe_lift (hs : Sound programs w) {x : Run α}
    (hx : w.machine.Steps free (outcome x w.machine).2) :
    Safe programs free w (lift x) fun a w' =>
      outcome x w.machine = (.ok a, w'.machine) ∧ w'.journal = w.journal := by
  rw [Safe, outcome_lift]
  refine ⟨hs.advances_steps hx, fun a ha => ⟨?_, rfl⟩⟩
  exact Prod.ext ha rfl

lemma safe_quiet (hs : Sound programs w) {x : Run α} (hx : Run.Quiet x) :
    Safe programs free w (lift x) fun a w' =>
      outcome x w.machine = (.ok a, w'.machine) ∧ w'.journal = w.journal :=
  safe_lift hs (hx w.machine).of_none

lemma safe_last (hs : Sound programs w) {x : Run α} (hx : Run.Quiet x) :
    Safe programs free w (lift x) fun _ _ => True :=
  (safe_quiet hs hx).weaken fun _ _ _ => trivial

lemma safe_within {frame : FrameRef} {body : WatchedRun α} {post : α → Watch → Prop}
    (h : Safe programs free { w with machine.current := frame } body post) :
    Safe programs free w (within frame body) fun _ _ => True := by
  rw [Safe, outcome_within]
  exact ⟨⟨h.1.frames, rfl, h.1.table, h.1.sound.setCurrent _⟩, fun _ _ => trivial⟩

section Parts

variable {post : α → Watch → Prop}

lemma safe_require (hs : Sound programs w) {result : Option β} {cause : RuntimeError.Cause}
    {line : Nat} {f : β → WatchedRun α} (h : ∀ a, result = some a → Safe programs free w (f a) post) :
    Safe programs free w (lift (Run.require result cause line) >>= f) post := by
  cases result with
  | none => exact ⟨.refl hs, fun _ hb => nomatch hb⟩
  | some a => exact h a rfl

lemma eq_of_outcome {x : Run β} {b c : β} {m : Machine} {w' : Watch}
    (hx : outcome x w.machine = (.ok b, m))
    (h : outcome x w.machine = (.ok c, w'.machine) ∧ w'.journal = w.journal) :
    b = c ∧ { w with machine := m } = w' := by
  obtain ⟨machine, journal⟩ := w'
  obtain ⟨hout, hjournal⟩ := h
  obtain rfl : journal = w.journal := hjournal
  obtain ⟨rfl, rfl⟩ : b = c ∧ m = machine := by simpa [hx] using hout
  exact ⟨rfl, rfl⟩

lemma safe_lift_bind (hs : Sound programs w) {x : Run β} {b : β} {m : Machine}
    (hx : outcome x w.machine = (.ok b, m)) (hm : w.machine.Steps free m) {f : β → WatchedRun α}
    (h : Sound programs { w with machine := m } →
      Safe programs free { w with machine := m } (f b) post) :
    Safe programs free w (lift x >>= f) post := by
  have hsteps : w.machine.Steps free (outcome x w.machine).2 := by rwa [hx]
  refine (safe_lift hs hsteps).bind fun a w' hadvances hpost => ?_
  obtain ⟨rfl, rfl⟩ := eq_of_outcome hx hpost
  exact h hadvances.sound

lemma safe_newFrame_bind (hs : Sound programs w) {enclosing : FrameRef} {bindings : Bindings Value}
    {f : FrameRef → WatchedRun α}
    (h : Sound programs { w with machine.frames := w.machine.frames.push enclosing bindings } →
      Safe programs (some w.machine.frames.next)
        { w with machine.frames := w.machine.frames.push enclosing bindings }
        (f w.machine.frames.next) post) :
    Safe programs none w (lift (Run.newFrame enclosing bindings) >>= f) post := by
  refine Safe.bind_fresh (Nat.le_refl w.machine.frames.next.index)
    (safe_quiet hs (Run.quiet_newFrame enclosing bindings)) fun a w' hadvances hpost => ?_
  obtain ⟨rfl, rfl⟩ := eq_of_outcome (Run.outcome_newFrame enclosing bindings w.machine) hpost
  exact h hadvances.sound

/-- A part of a run that gives no frame a new name is known to do so by what comes after it. -/
lemma Safe.remember {x : WatchedRun α} (h : Safe programs none w x post) :
    Safe programs free w x fun a w' => Advances programs none w w' ∧ post a w' :=
  ⟨h.1.of_none, fun a ha => ⟨h.1, h.2 a ha⟩⟩

lemma Safe.quietly {x : WatchedRun α} (h : Safe programs none w x fun _ _ => True) :
    Safe programs free w x fun _ w' => Advances programs none w w' :=
  h.remember.weaken fun _ _ hpost => hpost.1

lemma Safe.noted {node : Expr} {x : WatchedRun α} (hs : Sound programs w)
    (hm : Moment.Agrees programs ⟨node, site, w.machine⟩)
    (h : Safe programs free
      { w with journal.moments := ⟨node, site, w.machine⟩ :: w.journal.moments } x post) :
    Safe programs free w (note node site >>= fun _ => x) post := by
  have hnote : Advances programs free w
      { w with journal.moments := ⟨node, site, w.machine⟩ :: w.journal.moments } :=
    ⟨.refl free w.machine.frames, rfl, rfl, hs.note hm⟩
  rw [Safe, outcome_bind]
  exact ⟨hnote.trans h.1, h.2⟩

lemma Safe.notedAssignment {node : Expr} {x : WatchedRun α} (hs : Sound programs w)
    (hm : Moment.Assigns programs ⟨node, site, w.machine⟩)
    (h : Safe programs free
      { w with journal.assignments := ⟨node, site, w.machine⟩ :: w.journal.assignments } x post) :
    Safe programs free w (noteAssignment node site >>= fun _ => x) post := by
  have hnote : Advances programs free w
      { w with journal.assignments := ⟨node, site, w.machine⟩ :: w.journal.assignments } :=
    ⟨.refl free w.machine.frames, rfl, rfl, hs.noteAssignment hm⟩
  rw [Safe, outcome_bind]
  exact ⟨hnote.trans h.1, h.2⟩

end Parts

end WatchedRun

end Lox
