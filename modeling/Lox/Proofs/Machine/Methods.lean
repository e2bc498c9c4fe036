import Lox.Proofs.Machine.Closed

/-! Methods up the chain of superclasses. A machine that is closed finds them all: the classes above one
were made before it. -/

namespace Lox.Machine

/-- From a class upward, the first one that has a method of the name, and that method. -/
inductive Finds (m : Machine) (name : String) : ClassRef → ClassRef → Closure → Prop
  | own {ref type method} : m.class? ref = some type → type.methods.get? name = some method →
      Finds m name ref ref method
  | above {ref type parent owner method} : m.class? ref = some type →
      type.methods.get? name = none → type.superclass = some parent →
      Finds m name parent owner method → Finds m name ref owner method

variable {m : Machine} {name : String} {ref : ClassRef} {method : Closure} {count : Nat}

/-- What is found depends on the classes alone. -/
lemma methodAmong?_of_classes {m' : Machine} (h : m'.classes = m.classes) (name : String) (count : Nat) :
    m'.methodAmong? name count = m.methodAmong? name count := by
  induction count with
  | zero => rfl
  | succ count ih =>
    funext ref
    rw [methodAmong?, methodAmong?, ih, class?, class?, h]

lemma method?_of_classes {m' : Machine} (h : m'.classes = m.classes) (ref : ClassRef) (name : String) :
    m'.method? ref name = m.method? ref name :=
  congrFun (methodAmong?_of_classes h name _) ref

lemma finds_of_methodAmong? (h : m.methodAmong? name count ref = some method) :
    ∃ owner, m.Finds name ref owner method := by
  induction count generalizing ref with
  | zero => simp [methodAmong?] at h
  | succ count ih =>
    obtain ⟨type, htype, h⟩ := Option.bind_eq_some_iff.mp h
    cases hown : type.methods.get? name with
    | some own =>
      obtain rfl : own = method := by simpa [hown] using h
      exact ⟨ref, .own htype hown⟩
    | none =>
      rw [hown, Option.none_or] at h
      obtain ⟨parent, hparent, h⟩ := Option.bind_eq_some_iff.mp h
      obtain ⟨owner, hfinds⟩ := ih h
      exact ⟨owner, .above htype hown hparent hfinds⟩

/-- There are no more classes above one than were made before it. -/
lemma Finds.methodAmong? (hm : m.Closed) {owner : ClassRef} (h : m.Finds name ref owner method)
    (hlt : ref.index < count) : m.methodAmong? name count ref = some method := by
  induction h generalizing count with
  | own htype hown =>
    obtain ⟨count, rfl⟩ := Nat.exists_eq_succ_of_ne_zero (Nat.ne_zero_of_lt hlt)
    rw [Machine.methodAmong?, htype, Option.bind_some, hown, Option.some_or]
  | above htype hown hparent _ ih =>
    obtain ⟨count, rfl⟩ := Nat.exists_eq_succ_of_ne_zero (Nat.ne_zero_of_lt hlt)
    have hbefore := hm.superclasses _ _ _ htype hparent
    rw [Machine.methodAmong?, htype, Option.bind_some, hown, Option.none_or, hparent,
      Option.bind_some, ih (by omega)]

lemma method?_eq_some_iff (hm : m.Closed) :
    m.method? ref name = some method ↔ ∃ owner, m.Finds name ref owner method :=
  ⟨finds_of_methodAmong?, fun ⟨_, h⟩ => h.methodAmong? hm (Nat.lt_succ_self _)⟩

lemma method?_eq_none_iff (hm : m.Closed) :
    m.method? ref name = none ↔ ∀ owner method, ¬ m.Finds name ref owner method := by
  simp only [Option.eq_none_iff_forall_ne_some, ne_eq, method?_eq_some_iff hm, not_exists]
  exact forall_comm

end Lox.Machine
