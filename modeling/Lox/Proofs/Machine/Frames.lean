import Lox.Machine.Frame
import Lox.Proofs.Grammar.Proper

/-! How frames change while a program runs: they are made and never unmade, and what is around a
frame, and what stands in it for an instance or a superclass, stays. -/

namespace Lox.Frames

variable {f g h : Frames} {free : Option FrameRef} {ref other : FrameRef} {name : String}

lemma index_lt_iff : ref.index < f.all.size ↔ (f.get? ref).isSome = true := by
  simp [get?]

lemma index_lt_of_enclosing? {outer : FrameRef} (h : f.enclosing? ref = some outer) :
    ref.index < f.all.size := by
  obtain ⟨frame, hframe, -⟩ := Option.bind_eq_some_iff.mp h
  simp [index_lt_iff, hframe]

lemma index_lt_of_binds (h : f.binds ref name = true) : ref.index < f.all.size := by
  obtain ⟨value, hvalue⟩ := Option.isSome_iff_exists.mp h
  obtain ⟨frame, hframe, -⟩ := Option.bind_eq_some_iff.mp hvalue
  simp [index_lt_iff, hframe]

lemma ne_next_of_index_lt (h : ref.index < f.all.size) : ref ≠ f.next := by
  rintro rfl
  exact Nat.lt_irrefl _ h

lemma enclosing?_push (enclosing : FrameRef) (bindings : Bindings Value) :
    (f.push enclosing bindings).enclosing? ref =
      if ref = f.next then some enclosing else f.enclosing? ref := by
  rw [enclosing?, get?_push]
  split <;> rfl

lemma lookup?_push (enclosing : FrameRef) (bindings : Bindings Value) :
    (f.push enclosing bindings).lookup? ref name =
      if ref = f.next then bindings.get? name else f.lookup? ref name := by
  rw [lookup?, get?_push]
  split <;> rfl

lemma binds_define_iff (value : Value) : (f.define ref name value).binds other n = true ↔
    f.binds other n = true ∨ ref = other ∧ n = name ∧ other.index < f.all.size := by
  rw [binds, lookup?_define, binds, index_lt_iff]
  by_cases hr : ref = other <;> by_cases hn : n = name
  · rw [if_pos ⟨hr, hn⟩]
    cases hget : f.get? other <;> simp [hr, hn, lookup?, hget]
  all_goals simp [hr, hn]

lemma binds_of_nearest? {count : Nat} {frame : FrameRef}
    (h : f.nearest? name count ref = some frame) :
    f.binds frame name = true := by
  induction count generalizing ref with
  | zero => simp [nearest?] at h
  | succ count ih =>
    rw [nearest?] at h
    split at h
    · rename_i hb
      rwa [← Option.some.inj h]
    · obtain ⟨outer, -, houter⟩ := Option.bind_eq_some_iff.mp h
      exact ih houter

lemma binderAt?_eq_some_iff {frame : FrameRef} {distance : Nat} :
    f.binderAt? ref distance name = some frame ↔
      f.ancestor? ref distance = some frame ∧ f.binds frame name = true := by
  rw [binderAt?, Option.filter_eq_some_iff]

/-- What is so of the frames as they are later in a run. Only the free one of the frames that there
are has got new names. -/
structure Follows (free : Option FrameRef) (f g : Frames) : Prop where
  size : f.all.size ≤ g.all.size
  enclosing : ∀ ref, ref.index < f.all.size → g.enclosing? ref = f.enclosing? ref
  binds : ∀ ref name, f.binds ref name = true → g.binds ref name = true
  special : ∀ ref name, ref.index < f.all.size → ¬ Scope.IsPlain name →
    g.lookup? ref name = f.lookup? ref name
  names : ∀ ref name, ref.index < f.all.size → free ≠ some ref → g.binds ref name = true →
    f.binds ref name = true

namespace Follows

lemma refl (free : Option FrameRef) (f : Frames) : Follows free f f :=
  ⟨Nat.le_refl _, fun _ _ => rfl, fun _ _ hb => hb, fun _ _ _ _ => rfl, fun _ _ _ _ hb => hb⟩

lemma trans_of_names {free' : Option FrameRef} (hfg : Follows free f g) (hgh : Follows free' g h)
    (hnames : ∀ ref, ref.index < f.all.size → free ≠ some ref → free' ≠ some ref) :
    Follows free f h where
  size := Nat.le_trans hfg.size hgh.size
  enclosing ref hr := by
    have hr' := Nat.lt_of_lt_of_le hr hfg.size
    rw [hgh.enclosing ref hr', hfg.enclosing ref hr]
  binds ref name hb := hgh.binds ref name (hfg.binds ref name hb)
  special ref name hr hn := by
    have hr' := Nat.lt_of_lt_of_le hr hfg.size
    rw [hgh.special ref name hr' hn, hfg.special ref name hr hn]
  names ref name hr hne hb := by
    have hr' := Nat.lt_of_lt_of_le hr hfg.size
    exact hfg.names ref name hr hne (hgh.names ref name hr' (hnames ref hr hne) hb)

lemma trans (hfg : Follows free f g) (hgh : Follows free g h) : Follows free f h :=
  hfg.trans_of_names hgh fun _ _ hne => hne

lemma trans_fresh (hfg : Follows free f g) (hgh : Follows (some ref) g h)
    (hr : f.all.size ≤ ref.index) : Follows free f h := by
  refine hfg.trans_of_names hgh fun other ho _ heq => ?_
  rw [Option.some.inj heq] at hr
  omega

lemma of_none (hfg : Follows none f g) : Follows free f g :=
  ⟨hfg.size, hfg.enclosing, hfg.binds, hfg.special,
    fun ref name hr _ hb => hfg.names ref name hr (by simp) hb⟩

end Follows

lemma follows_push (enclosing : FrameRef) (bindings : Bindings Value) :
    Follows free f (f.push enclosing bindings) where
  size := by simp [push]
  enclosing ref hr := by rw [enclosing?_push, if_neg (ne_next_of_index_lt hr)]
  binds ref name hb := by
    have hr := index_lt_of_binds hb
    rwa [Frames.binds, lookup?_push, if_neg (ne_next_of_index_lt hr)]
  special ref name hr _ := by rw [lookup?_push, if_neg (ne_next_of_index_lt hr)]
  names ref name hr _ hb := by
    rwa [Frames.binds, lookup?_push, if_neg (ne_next_of_index_lt hr)] at hb

lemma follows_define (hn : Scope.IsPlain name) (value : Value) :
    Follows (some ref) f (f.define ref name value) where
  size := Nat.le_of_eq (size_define ..).symm
  enclosing other _ := enclosing?_define ..
  binds other n hb := (binds_define_iff value).mpr (.inl hb)
  special other n _ hspecial := by
    rw [lookup?_define, if_neg]
    rintro ⟨-, rfl⟩
    exact hspecial hn
  names other n _ hne hb := by
    rcases (binds_define_iff value).mp hb with hb | ⟨rfl, -⟩
    · exact hb
    · exact absurd rfl hne

lemma follows_redefine (hn : Scope.IsPlain name) (hb : f.binds ref name = true) (value : Value) :
    Follows free f (f.define ref name value) where
  size := (follows_define hn value).size
  enclosing := (follows_define hn value).enclosing
  binds := (follows_define hn value).binds
  special := (follows_define hn value).special
  names other n _ _ hn := by
    rcases (binds_define_iff value).mp hn with hn | ⟨rfl, rfl, -⟩
    · exact hn
    · exact hb

end Lox.Frames
