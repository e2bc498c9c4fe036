import Lox.Proofs.Log.Fits
import Lox.Proofs.Machine.Quiet

/-! Logs stay sound, from the steps of a run to its calls. -/

namespace Lox

namespace LoggedRun

variable {α β : Type} {given : String → Prop} {free : Option FrameRef} {t : Log}

/-- The run does on the machine what the one with a log does. However that ends, the log is sound, and no
frame that there was has got a name besides the free one; a result is as expected. -/
structure Keeps (given : String → Prop) (free : Option FrameRef) (t : Log) (x : LoggedRun α) (y : Run α)
    (post : α → Log → Prop) : Prop where
  erases : outcome y t.machine = ((outcome x t).1, (outcome x t).2.machine)
  sound : (outcome x t).2.Sound given
  goes : Log.Goes free t (outcome x t).2
  result : ∀ a, (outcome x t).1 = .ok a → post a (outcome x t).2

section Rules

variable {x : LoggedRun α} {y : Run α} {post : α → Log → Prop} {post' : β → Log → Prop}

lemma keeps_pure (ht : t.Sound given) {a : α} (h : post a t) :
    Keeps given free t (pure a) (pure a) post := by
  refine ⟨rfl, ht, .refl free t, fun b hb => ?_⟩
  rw [← Except.ok.inj hb]
  exact h

lemma keeps_throw (ht : t.Sound given) (halt : Halt) :
    Keeps given free t (throw halt) (throw halt) post :=
  ⟨rfl, ht, .refl free t, fun _ hb => nomatch hb⟩

lemma Keeps.bind {f : α → LoggedRun β} {g : α → Run β} (h : Keeps given free t x y post)
    (hf : ∀ a t', Log.Goes free t t' → t'.Sound given → post a t' →
      Keeps given free t' (f a) (g a) post') :
    Keeps given free t (x >>= f) (y >>= g) post' := by
  obtain ⟨herases, hsound, hgoes, hresult⟩ := h
  rcases hx : outcome x t with ⟨_ | a, t'⟩ <;> rw [hx] at herases hsound hgoes hresult <;>
    constructor <;> simp only [outcome_bind, hx, herases]
  · exact hsound
  · exact hgoes
  · exact fun _ hb => nomatch hb
  · exact (hf a t' hgoes hsound (hresult a rfl)).erases
  · exact (hf a t' hgoes hsound (hresult a rfl)).sound
  · exact hgoes.trans (hf a t' hgoes hsound (hresult a rfl)).goes
  · exact (hf a t' hgoes hsound (hresult a rfl)).result

lemma Keeps.yield {f : α → β} (h : Keeps given free t x y post)
    (hf : ∀ a t', Log.Goes free t t' → t'.Sound given → post a t' → post' (f a) t') :
    Keeps given free t (x >>= fun a => pure (f a)) (y >>= fun a => pure (f a)) post' :=
  h.bind fun a t' hgoes ht ha => keeps_pure ht (hf a t' hgoes ht ha)

lemma Keeps.of_none (h : Keeps given none t x y post) : Keeps given free t x y post :=
  ⟨h.erases, h.sound, h.goes.of_none, h.result⟩

lemma keeps_get {f : Log → LoggedRun α} {g : Machine → Run α}
    (h : Keeps given free t (f t) (g t.machine) post) :
    Keeps given free t (get >>= f) (get >>= g) post := by
  constructor <;> simp only [outcome_bind, outcome_get]
  · exact h.erases
  · exact h.sound
  · exact h.goes
  · exact h.result

lemma Keeps.ite {p : Prop} [Decidable p] {x' : LoggedRun α} {y' : Run α}
    (ht : Keeps given free t x y post) (hf : Keeps given free t x' y' post) :
    Keeps given free t (if p then x else x') (if p then y else y') post := by
  split
  · exact ht
  · exact hf

/-- What is logged is not seen by the run. -/
lemma Keeps.logged {entry : Entry} {x : LoggedRun Unit} {f : Unit → LoggedRun α}
    (hx : outcome x t = (.ok (), ⟨t.machine, t.entries ++ [entry]⟩))
    (he : ∀ frame name value, entry ≠ .makes frame name value)
    (h : Keeps given free ⟨t.machine, t.entries ++ [entry]⟩ (f ()) y post) :
    Keeps given free t (x >>= f) y post := by
  have hgoes : Log.Goes free t ⟨t.machine, t.entries ++ [entry]⟩ := by
    refine ⟨.refl free _, rfl, List.subset_append_left .., fun frame name value hm => ?_⟩
    rcases List.mem_append.mp hm with hm | hm
    · exact .inl hm
    · exact absurd (List.mem_singleton.mp hm).symm (he frame name value)
  constructor <;> simp only [outcome_bind, hx]
  · exact h.erases
  · exact h.sound
  · exact hgoes.trans h.goes
  · exact h.result

lemma Keeps.noted (ht : t.Sound given) {f : Unit → LoggedRun α}
    (h : ∀ t' : Log, t'.machine = t.machine → t'.Sound given → Keeps given free t' (f ()) y post) :
    Keeps given free t (note >>= f) y post :=
  Keeps.logged rfl (by simp) (h ⟨t.machine, t.entries ++ [.begins t.machine]⟩ rfl ht.note)

lemma keeps_lift (hs : Log.Sound given ⟨(outcome y t.machine).2, t.entries⟩)
    (hframes : Frames.Spares free t.machine.frames (outcome y t.machine).2.frames)
    (hcurrent : (outcome y t.machine).2.current = t.machine.current)
    (hpost : ∀ a, (outcome y t.machine).1 = .ok a → post a ⟨(outcome y t.machine).2, t.entries⟩) :
    Keeps given free t (lift y) y post :=
  ⟨rfl, hs, .of_frames hframes hcurrent, hpost⟩

/-- A step that changes neither frames nor what is stored in functions and classes. -/
lemma keeps_aside (ht : t.Sound given)
    (h : ∃ output instances clock, (outcome y t.machine).2 =
      { t.machine with output, instances, clock }) :
    Keeps given free t (lift y) y fun _ _ => True := by
  obtain ⟨output, instances, clock, hm⟩ := h
  refine keeps_lift ?_ ?_ ?_ fun _ _ => trivial <;> rw [hm]
  · exact ht.setMachine (ht.fits.of_eq rfl rfl rfl rfl)
  · exact .refl free _

lemma keeps_fail (ht : t.Sound given) (cause : RuntimeError.Cause) (line : Nat) :
    Keeps given free t (lift (Run.fail cause line)) (Run.fail cause line) post :=
  keeps_lift ht (.refl free _) rfl fun _ ha => nomatch ha

lemma keeps_require (ht : t.Sound given) {result : Option α} {cause : RuntimeError.Cause} {line : Nat}
    {f : α → LoggedRun β} {g : α → Run β}
    (h : ∀ a, result = some a → Keeps given free t (f a) (g a) post') :
    Keeps given free t (lift (Run.require result cause line) >>= f)
      (Run.require result cause line >>= g) post' := by
  cases result with
  | none => exact ⟨rfl, ht, .refl free t, fun _ hb => nomatch hb⟩
  | some a =>
    obtain ⟨herases, hsound, hgoes, hresult⟩ := h a rfl
    exact ⟨herases, hsound, hgoes, hresult⟩

lemma Keeps.inFrame (ht : t.Sound given) (enclosing : FrameRef) (bindings : Bindings Value)
    {body : LoggedRun α} {body' : Run α}
    (h : ∀ t' : Log, t'.Sound given →
      Keeps given (some t'.machine.current) t' body body' fun _ _ => True) :
    Keeps given none t (lift (Run.newFrame enclosing bindings) >>= fun frame => within frame body)
      (Run.newFrame enclosing bindings >>= fun frame => Run.within frame body') fun _ _ => True := by
  have hpush : Frames.Spares none t.machine.frames (t.machine.frames.push enclosing bindings) :=
    Frames.spares_push enclosing bindings
  have hlt : t.machine.frames.next.index < (t.machine.frames.push enclosing bindings).all.size := by
    simp [Frames.next, Frames.push]
  have hnew (name : String) (value : Value) : .makes t.machine.frames.next name value ∉ t.entries :=
    fun hm => Frames.ne_next_of_index_lt (ht.fits.made _ name value hm).2.index_lt rfl
  let inside : Log := ⟨{ t.machine with
    frames := t.machine.frames.push enclosing bindings, current := t.machine.frames.next }, t.entries⟩
  have hinside : inside.Sound given :=
    ht.setMachine ((ht.fits.newFrame enclosing bindings).enter hlt hnew)
  obtain ⟨herases, hsound, hgoes, -⟩ := h inside hinside
  have hspares := hpush.trans_fresh hgoes.frames (Nat.le_refl _)
  have hrun : outcome (lift (Run.newFrame enclosing bindings) >>= fun frame => within frame body) t =
      ((outcome body inside).1,
        ⟨{ (outcome body inside).2.machine with current := t.machine.current },
          (outcome body inside).2.entries⟩) := rfl
  -- The frame that was current is not among those that were made meanwhile.
  have hleft : Log.Fits given ⟨{ (outcome body inside).2.machine with
      current := t.machine.current }, (outcome body inside).2.entries⟩ := by
    refine hsound.fits.enter (Nat.lt_of_lt_of_le ht.fits.current hspares.size) fun name value hm => ?_
    rcases hgoes.made _ name value hm with hm | hle
    · exact (ht.fits.made _ name value hm).1 rfl
    · exact Nat.lt_irrefl _ (Nat.lt_of_lt_of_le ht.fits.current (Nat.le_trans hpush.size hle))
  constructor <;> rw [hrun]
  · rw [outcome_bind, Run.outcome_newFrame]
    dsimp only
    rw [Run.outcome_within]
    exact congrArg (fun ended : Except Halt α × Machine =>
      (ended.1, { ended.2 with current := t.machine.current })) herases
  · exact hsound.setMachine hleft
  · refine ⟨hspares, rfl, hgoes.entries, fun frame name value hm => ?_⟩
    rcases hgoes.made frame name value hm with hm | hle
    · exact .inl hm
    · exact .inr (Nat.le_trans hpush.size hle)
  · exact fun _ _ => trivial

end Rules

end LoggedRun

end Lox
