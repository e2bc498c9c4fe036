import Lox.Proofs.Bindings
import Lox.Proofs.Machine.Steps

/-! Machines on which nothing refers to what is not there, and runs that keep them so. A class is made
after its superclass. -/

namespace Lox

/-- What a value refers to is there. -/
def Value.In (m : Machine) : Value → Prop
  | .functionAt ref => ref.index < m.functions.size
  | .classAt ref => ref.index < m.classes.size
  | .instanceAt ref => ref.index < m.instances.size
  | _ => True

namespace Machine

structure Closed (m : Machine) : Prop where
  frames : ∀ ref name value, m.frames.lookup? ref name = some value → value.In m
  instances : ∀ found ∈ m.instances, found.classRef.index < m.classes.size
  fields : ∀ found ∈ m.instances, ∀ name value, found.fields.get? name = some value → value.In m
  superclasses : ∀ (i : Nat) (type : Class) (parent : ClassRef), m.classes[i]? = some type →
    type.superclass = some parent → parent.index < i

/-- What there is stays. -/
structure Grows (m m' : Machine) : Prop where
  functions : m.functions.size ≤ m'.functions.size
  classes : m.classes.size ≤ m'.classes.size
  instances : m.instances.size ≤ m'.instances.size

variable {m m' m'' : Machine}

lemma Grows.refl (m : Machine) : m.Grows m :=
  ⟨Nat.le_refl _, Nat.le_refl _, Nat.le_refl _⟩

lemma Grows.of_eq (hf : m'.functions = m.functions) (hc : m'.classes = m.classes)
    (hi : m'.instances = m.instances) : m.Grows m' := by
  constructor <;> simp [*]

lemma Grows.trans (h : m.Grows m') (h' : m'.Grows m'') : m.Grows m'' :=
  ⟨Nat.le_trans h.functions h'.functions, Nat.le_trans h.classes h'.classes,
    Nat.le_trans h.instances h'.instances⟩

end Machine

section Values

variable {m m' : Machine}

lemma Value.In.grows {value : Value} (h : value.In m) (hg : m.Grows m') : value.In m' := by
  cases value with
  | functionAt ref => exact Nat.lt_of_lt_of_le h hg.functions
  | classAt ref => exact Nat.lt_of_lt_of_le h hg.classes
  | instanceAt ref => exact Nat.lt_of_lt_of_le h hg.instances
  | nil | boolean | number | text | native => trivial

lemma Value.in_ofLiteral (value : Literal) : (Value.ofLiteral value).In m := by
  cases value <;> trivial

end Values

namespace Machine.Closed

variable {m : Machine}

lemma grows (h : m.Closed) {m' : Machine} (hg : m.Grows m') (hframes : m'.frames = m.frames)
    (hclasses : m'.classes = m.classes) (hinstances : m'.instances = m.instances) : m'.Closed where
  frames ref name value hv := by
    rw [hframes] at hv
    exact (h.frames ref name value hv).grows hg
  instances := by
    rw [hinstances, hclasses]
    exact h.instances
  fields := by
    rw [hinstances]
    exact fun found hf name value hv => (h.fields found hf name value hv).grows hg
  superclasses := by
    rw [hclasses]
    exact h.superclasses

lemma setFrames (h : m.Closed) {frames : Frames}
    (hf : ∀ ref name value, frames.lookup? ref name = some value → value.In m) :
    Closed { m with frames } :=
  ⟨hf, h.instances, h.fields, h.superclasses⟩

lemma newFrame (h : m.Closed) {bindings : Bindings Value}
    (hb : ∀ name value, bindings.get? name = some value → value.In m) (enclosing : FrameRef) :
    Closed { m with frames := m.frames.push enclosing bindings } := by
  refine h.setFrames fun ref name value hv => ?_
  rw [Frames.lookup?_push] at hv
  split at hv
  · exact hb name value hv
  · exact h.frames ref name value hv

lemma define (h : m.Closed) {value : Value} (hv : value.In m) (ref : FrameRef) (name : String) :
    Closed { m with frames := m.frames.define ref name value } := by
  refine h.setFrames fun other n given hgiven => ?_
  rw [Frames.lookup?_define] at hgiven
  split at hgiven
  · obtain ⟨_, -, rfl⟩ := Option.map_eq_some_iff.mp hgiven
    exact hv
  · exact h.frames other n given hgiven

lemma newFunction (h : m.Closed) (closure : Closure) :
    Closed { m with functions := m.functions.push closure } :=
  h.grows ⟨by simp, Nat.le_refl _, Nat.le_refl _⟩ rfl rfl rfl

lemma newClass (h : m.Closed) {type : Class}
    (hp : ∀ parent, type.superclass = some parent → parent.index < m.classes.size) :
    Closed { m with classes := m.classes.push type } where
  frames ref name value hv :=
    (h.frames ref name value hv).grows ⟨Nat.le_refl _, by simp, Nat.le_refl _⟩
  instances found hf := Nat.lt_of_lt_of_le (h.instances found hf) (by simp)
  fields found hf name value hv :=
    (h.fields found hf name value hv).grows ⟨Nat.le_refl _, by simp, Nat.le_refl _⟩
  superclasses i made parent hmade hparent := by
    rw [Array.getElem?_push] at hmade
    split at hmade
    · rename_i hi
      rw [hi]
      rw [Option.some.inj hmade] at hp
      exact hp parent hparent
    · exact h.superclasses i made parent hmade hparent

lemma newInstance (h : m.Closed) {ref : ClassRef} (hr : ref.index < m.classes.size) :
    Closed { m with instances := m.instances.push ⟨ref, ∅⟩ } where
  frames other name value hv :=
    (h.frames other name value hv).grows ⟨Nat.le_refl _, Nat.le_refl _, by simp⟩
  instances found hf := by
    rcases Array.mem_push.mp hf with hf | rfl
    · exact h.instances found hf
    · exact hr
  fields found hf name value hv := by
    rcases Array.mem_push.mp hf with hf | rfl
    · exact (h.fields found hf name value hv).grows ⟨Nat.le_refl _, Nat.le_refl _, by simp⟩
    · simp at hv
  superclasses := h.superclasses

lemma setField (h : m.Closed) {value : Value} (hv : value.In m) (self : InstanceRef) (name : String) :
    Closed { m with
      instances := m.instances.modify self.index fun found =>
        { found with fields := found.fields.insert name value } } := by
  have hgrows : m.Grows { m with
      instances := m.instances.modify self.index fun found =>
        { found with fields := found.fields.insert name value } } :=
    ⟨Nat.le_refl _, Nat.le_refl _, by simp⟩
  -- An instance is one that there was, or that one with another field.
  have hmem {found : Instance} (hf : found ∈ m.instances.modify self.index fun found =>
      { found with fields := found.fields.insert name value }) :
      ∃ old ∈ m.instances, found = old ∨
        found = { old with fields := old.fields.insert name value } := by
    obtain ⟨i, hi⟩ := Array.getElem?_of_mem hf
    rw [Array.getElem?_modify] at hi
    split at hi
    · obtain ⟨old, hold, rfl⟩ := Option.map_eq_some_iff.mp hi
      exact ⟨old, Array.mem_of_getElem? hold, .inr rfl⟩
    · exact ⟨found, Array.mem_of_getElem? hi, .inl rfl⟩
  refine ⟨fun ref n given hg => (h.frames ref n given hg).grows hgrows, fun found hf => ?_,
    fun found hf n given hg => ?_, h.superclasses⟩
  · obtain ⟨old, hold, heq⟩ := hmem hf
    have hclass : found.classRef = old.classRef := by rcases heq with rfl | rfl <;> rfl
    rw [hclass]
    exact h.instances old hold
  · refine Value.In.grows ?_ hgrows
    obtain ⟨old, hold, heq | heq⟩ := hmem hf <;> rw [heq] at hg
    · exact h.fields old hold n given hg
    · rw [Bindings.get?_insert] at hg
      split at hg
      · rwa [← Option.some.inj hg]
      · exact h.fields old hold n given hg

lemma read? (h : m.Closed) {target : Reference} {value : Value} (hv : m.read? target = some value) :
    value.In m := by
  obtain ⟨frame, -, hlookup⟩ := Option.bind_eq_some_iff.mp hv
  exact h.frames frame _ value hlookup

lemma super? (h : m.Closed) {keyword : Reference} {superclass : ClassRef} {self : InstanceRef}
    (hs : m.super? keyword = some (superclass, self)) :
    superclass.index < m.classes.size ∧ self.index < m.instances.size := by
  unfold Machine.super? at hs
  split at hs
  · split at hs
    · rename_i hclass hself
      obtain ⟨rfl, rfl⟩ := Prod.mk.inj (Option.some.inj hs)
      obtain ⟨frame, -, hclass⟩ := Option.bind_eq_some_iff.mp hclass
      obtain ⟨frame', -, hself⟩ := Option.bind_eq_some_iff.mp hself
      exact ⟨h.frames frame _ _ hclass, h.frames frame' _ _ hself⟩
    · simp at hs
  · simp at hs

lemma field (h : m.Closed) {self : InstanceRef} {name : String} {value : Value}
    (hm : m.member? self name = some (.field value)) : value.In m := by
  obtain ⟨found, hfound, hmember⟩ := Option.bind_eq_some_iff.mp hm
  cases hfield : found.fields.get? name with
  | none => simp [hfield] at hmember
  | some given =>
    obtain rfl : given = value := by simpa [hfield] using hmember
    exact h.fields found (Array.mem_of_getElem? hfound) name given hfield

lemma initial (limit : Option Nat) (reading : Nat → Float) : (Machine.initial limit reading).Closed where
  frames ref name value hv := by
    change (Frames.initial.define .globals clockName (.native .clock)).lookup? ref name = _ at hv
    rw [Frames.lookup?_define] at hv
    split at hv
    · obtain ⟨_, -, rfl⟩ := Option.map_eq_some_iff.mp hv
      trivial
    · obtain ⟨frame, hframe, hvalue⟩ := Option.bind_eq_some_iff.mp hv
      obtain rfl : frame = ⟨∅, none⟩ := by
        simpa [Frames.initial] using Array.mem_of_getElem? hframe
      simp at hvalue
  instances := by simp [Machine.initial]
  fields := by simp [Machine.initial]
  superclasses := by simp [Machine.initial]

end Machine.Closed

end Lox
