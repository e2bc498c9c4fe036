import Lox.Proofs.Watch.Origins

/-! Going outward from a frame: how far it is to the global one, and to the nearest frame that binds a
name. -/

namespace Lox.Frames

variable {f : Frames} {ref frame : FrameRef} {name : String} {distance distance' : Nat}

lemma ancestor?_add (f : Frames) (ref : FrameRef) (distance distance' : Nat) :
    f.ancestor? ref (distance + distance') =
      (f.ancestor? ref distance).bind (f.ancestor? · distance') := by
  induction distance generalizing ref with
  | zero => simp [ancestor?]
  | succ distance ih =>
    rw [Nat.succ_add, ancestor?, ancestor?]
    cases f.enclosing? ref with
    | none => rfl
    | some outer => exact ih outer

/-- There is nothing beyond the global frame, so it is found at one distance only. -/
lemma distance_globals_unique (hroot : f.enclosing? .globals = none)
    (h : f.ancestor? ref distance = some .globals) (h' : f.ancestor? ref distance' = some .globals) :
    distance = distance' := by
  wlog hle : distance ≤ distance' generalizing distance distance'
  · exact (this h' h (Nat.le_of_not_le hle)).symm
  · obtain ⟨more, rfl⟩ := Nat.exists_eq_add_of_le hle
    rw [ancestor?_add, h, Option.bind_some] at h'
    cases more with
    | zero => rfl
    | succ more => simp [ancestor?, hroot] at h'

lemma eq_of_ancestor?_globals (hroot : f.enclosing? .globals = none)
    (h : f.ancestor? .globals distance = some frame) : frame = .globals := by
  cases distance with
  | zero => exact (Option.some.inj h).symm
  | succ distance => simp [ancestor?, hroot] at h

lemma Ordered.index_ancestor? (ho : f.Ordered) (h : f.ancestor? ref distance = some frame) :
    frame.index + distance ≤ ref.index := by
  induction distance generalizing ref with
  | zero =>
    obtain rfl := Option.some.inj h
    exact Nat.le_refl _
  | succ distance ih =>
    obtain ⟨outer, houter, h⟩ := Option.bind_eq_some_iff.mp h
    have hlt := ho ref outer houter
    have hle := ih h
    omega

lemma nearest?_eq_some {count : Nat} (hcount : distance < count)
    (h : f.ancestor? ref distance = some frame) (hb : f.binds frame name = true)
    (hnot : ∀ nearer < distance, ∀ other, f.ancestor? ref nearer = some other →
      f.binds other name = false) :
    f.nearest? name count ref = some frame := by
  induction distance generalizing ref count with
  | zero =>
    obtain rfl := Option.some.inj h
    obtain ⟨count, rfl⟩ := Nat.exists_eq_succ_of_ne_zero (Nat.ne_of_gt hcount)
    rw [nearest?, if_pos hb]
  | succ distance ih =>
    obtain ⟨count, rfl⟩ := Nat.exists_eq_succ_of_ne_zero (Nat.ne_of_gt (Nat.zero_lt_of_lt hcount))
    obtain ⟨outer, houter, h⟩ := Option.bind_eq_some_iff.mp h
    have hhere := hnot 0 (Nat.zero_lt_succ _) ref rfl
    rw [nearest?, if_neg (by simp [hhere]), houter, Option.bind_some]
    refine ih (Nat.lt_of_succ_lt_succ hcount) h fun nearer hlt other hother => ?_
    refine hnot (nearer + 1) (Nat.succ_lt_succ hlt) other ?_
    rw [ancestor?, houter, Option.bind_some, hother]

lemma binder?_eq_some (ho : f.Ordered) (h : f.ancestor? ref distance = some frame)
    (hb : f.binds frame name = true)
    (hnot : ∀ nearer < distance, ∀ other, f.ancestor? ref nearer = some other →
      f.binds other name = false) :
    f.binder? ref name = some frame := by
  refine nearest?_eq_some ?_ h hb hnot
  have hle := ho.index_ancestor? h
  omega

lemma binder?_eq_none (hnot : ∀ distance other, f.ancestor? ref distance = some other →
    f.binds other name = false) : f.binder? ref name = none := by
  have hnearest (count : Nat) : f.nearest? name count ref = none := by
    induction count generalizing ref with
    | zero => rfl
    | succ count ih =>
      have hhere := hnot 0 ref rfl
      rw [nearest?, if_neg (by simp [hhere])]
      cases houter : f.enclosing? ref with
      | none => rfl
      | some outer =>
        refine ih fun distance other hother => hnot (distance + 1) other ?_
        rw [ancestor?, houter, Option.bind_some, hother]
  exact hnearest _

lemma binder?_isSome (ho : f.Ordered) (h : f.ancestor? ref distance = some frame)
    (hb : f.binds frame name = true) : (f.binder? ref name).isSome = true := by
  induction distance using Nat.strongRecOn generalizing frame with
  | ind distance ih =>
    by_cases hnot : ∀ nearer < distance, ∀ other, f.ancestor? ref nearer = some other →
        f.binds other name = false
    · rw [binder?_eq_some ho h hb hnot]
      rfl
    · push Not at hnot
      obtain ⟨nearer, hlt, other, hother, hb'⟩ := hnot
      exact ih nearer hlt hother (by simpa using hb')

end Lox.Frames
