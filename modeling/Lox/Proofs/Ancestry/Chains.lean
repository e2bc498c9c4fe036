import Lox.Proofs.Machine.Closed
import Mathlib.Data.List.Induction

/-! The classes upward from a class, and the declarations among which its methods are searched for. -/

namespace Lox

/-- The method of a name that a class keeps: the last one. -/
def ClassDecl.lastNamed? (decl : ClassDecl) (name : String) : Option FunctionDecl :=
  (decl.methods.filter (·.name.text == name)).getLast?

lemma ClassDecl.lastNamed?_eq_none_iff {decl : ClassDecl} {name : String} :
    decl.lastNamed? name = none ↔ ∀ method ∈ decl.methods, method.name.text ≠ name := by
  simp [lastNamed?]

lemma Bindings.get?_insertAll {α β : Type} (items : List β) (key : β → String) (f : β → α)
    (name : String) :
    ((∅ : Bindings α).insertAll (items.map fun item => (key item, f item))).get? name =
      (items.filter (key · == name)).getLast?.map f := by
  -- The last entry decides for its name, so the induction takes entries off the end.
  induction items using List.reverseRecOn with
  | nil => rfl
  | append_singleton items last ih =>
    have hlast : (∅ : Bindings α).insertAll ((items ++ [last]).map fun item => (key item, f item)) =
        ((∅ : Bindings α).insertAll (items.map fun item => (key item, f item))).insert
          (key last) (f last) := by
      simp [insertAll]
    rw [hlast, get?_insert, ih, List.filter_append]
    by_cases hkey : key last = name
    · simp [hkey]
    · simp [hkey, Ne.symm hkey]

/-- The class is one that its declaration makes. -/
structure Class.IsOf (type : Class) (decl : ClassDecl) : Prop where
  name : type.name = decl.name.text
  methods : ∀ name, (type.methods.get? name).map Closure.decl = decl.lastNamed? name

namespace Machine

/-- From a class upward, one class after another, to one that has no superclass. -/
inductive Chain (m : Machine) : ClassRef → List ClassRef → Prop
  | root {ref type} : m.class? ref = some type → type.superclass = none → Chain m ref [ref]
  | above {ref type parent chain} : m.class? ref = some type → type.superclass = some parent →
      Chain m parent chain → Chain m ref (ref :: chain)

variable {m : Machine} {ref : ClassRef} {chain : List ClassRef}

lemma class?_isSome_iff : (m.class? ref).isSome = true ↔ ref.index < m.classes.size := by
  simp [class?]

namespace Closed

variable (hm : m.Closed)

include hm

lemma exists_chain (hlt : ref.index < m.classes.size) : ∃ chain, m.Chain ref chain := by
  induction hn : ref.index using Nat.strongRecOn generalizing ref with
  | ind n ih =>
    obtain ⟨type, htype⟩ := Option.isSome_iff_exists.mp (class?_isSome_iff.mpr hlt)
    cases hparent : type.superclass with
    | none => exact ⟨[ref], .root htype hparent⟩
    | some parent =>
      have hbefore := hm.superclasses _ _ _ htype hparent
      obtain ⟨chain, hchain⟩ := ih parent.index (hn ▸ hbefore) (Nat.lt_trans hbefore hlt) rfl
      exact ⟨ref :: chain, .above htype hparent hchain⟩

lemma index_le_of_chain (h : m.Chain ref chain) : ∀ owner ∈ chain, owner.index ≤ ref.index := by
  induction h with
  | root => simp
  | above htype hparent _ ih =>
    have hbefore := hm.superclasses _ _ _ htype hparent
    refine List.forall_mem_cons.mpr ⟨Nat.le_refl _, fun owner howner => ?_⟩
    exact Nat.le_trans (ih owner howner) (Nat.le_of_lt hbefore)

lemma pairwise_of_chain (h : m.Chain ref chain) :
    chain.Pairwise fun lower upper => upper.index < lower.index := by
  induction h with
  | root => simp
  | above htype hparent hchain ih =>
    have hbefore := hm.superclasses _ _ _ htype hparent
    refine List.pairwise_cons.mpr ⟨fun owner howner => ?_, ih⟩
    exact Nat.lt_of_le_of_lt (hm.index_le_of_chain hchain owner howner) hbefore

end Closed

def Declared (m : Machine) (decls : Array ClassDecl) : Prop :=
  ∀ ref type, m.class? ref = some type → ∃ decl, decls[ref.index]? = some decl ∧ type.IsOf decl

/-- The classes are numbered as they were made from the declarations, and each was made after its
superclass. So the chain upward from one comes to an end and no class occurs twice in it; what is found for a
name is the last method of the name in the declaration of the nearest class on the chain that has one. -/
structure Descends (m : Machine) (decls : Array ClassDecl) : Prop where
  declared : ∀ ref type, m.class? ref = some type →
    ∃ decl, decls[ref.index]? = some decl ∧ type.name = decl.name.text
  superclasses : ∀ ref type parent, m.class? ref = some type → type.superclass = some parent →
    parent.index < ref.index
  chains : ∀ ref type, m.class? ref = some type → ∃ chain, m.Chain ref chain ∧
    (chain.Pairwise fun lower upper => upper.index < lower.index) ∧ ∀ name,
      (m.method? ref name).map Closure.decl =
        chain.findSome? (fun owner => decls[owner.index]?.bind (·.lastNamed? name)) ∧
      (m.method? ref name = none ↔ ∀ owner ∈ chain, ∀ decl, decls[owner.index]? = some decl →
        ∀ method ∈ decl.methods, method.name.text ≠ name)

namespace Declared

variable {decls : Array ClassDecl} (hd : m.Declared decls) (hm : m.Closed)

include hd hm

lemma methodAmong?_of_chain (h : m.Chain ref chain) (name : String) {count : Nat}
    (hlt : ref.index < count) :
    (m.methodAmong? name count ref).map Closure.decl =
      chain.findSome? fun owner => decls[owner.index]?.bind (·.lastNamed? name) := by
  induction h generalizing count with
  | root htype hroot =>
    obtain ⟨count, rfl⟩ := Nat.exists_eq_succ_of_ne_zero (Nat.ne_zero_of_lt hlt)
    obtain ⟨decl, hdecl, hof⟩ := hd _ _ htype
    rw [methodAmong?, htype, Option.bind_some, hroot, Option.bind_none, Option.or_none, hof.methods,
      List.findSome?_singleton, hdecl, Option.bind_some]
  | above htype hparent _ ih =>
    obtain ⟨count, rfl⟩ := Nat.exists_eq_succ_of_ne_zero (Nat.ne_zero_of_lt hlt)
    have hbefore := hm.superclasses _ _ _ htype hparent
    obtain ⟨decl, hdecl, hof⟩ := hd _ _ htype
    rw [methodAmong?, htype, Option.bind_some, hparent, Option.bind_some, Option.map_or, hof.methods,
      ih (by omega), List.findSome?_cons, hdecl, Option.bind_some]
    cases decl.lastNamed? name <;> rfl

lemma descends : m.Descends decls where
  declared ref type htype := by
    obtain ⟨decl, hdecl, hof⟩ := hd ref type htype
    exact ⟨decl, hdecl, hof.name⟩
  superclasses ref type parent htype hparent := hm.superclasses _ _ _ htype hparent
  chains ref type htype := by
    obtain ⟨chain, hchain⟩ := hm.exists_chain (class?_isSome_iff.mp (Option.isSome_of_eq_some htype))
    refine ⟨chain, hchain, hm.pairwise_of_chain hchain, fun name => ?_⟩
    have hfound : (m.method? ref name).map Closure.decl = _ :=
      hd.methodAmong?_of_chain hm hchain name (Nat.lt_succ_self _)
    refine ⟨hfound, ?_⟩
    rw [← Option.map_eq_none_iff, hfound, List.findSome?_eq_none_iff]
    simp only [Option.bind_eq_none_iff, ClassDecl.lastNamed?_eq_none_iff]

end Declared

end Machine

end Lox
