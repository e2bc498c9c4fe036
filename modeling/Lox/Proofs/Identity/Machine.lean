import Lox.Machine.State
import Lox.Proofs.Bindings
import Lox.Proofs.Identity.Renaming

/-! Machines whose functions and classes differ in identities only, and whose binding tables agree
on them. What such machines find under a name corresponds. -/

namespace Lox

def Closure.rename (ρ : Nat → Nat) (closure : Closure) : Closure :=
  { closure with decl := closure.decl.rename ρ }

def Class.rename (ρ : Nat → Nat) (type : Class) : Class :=
  { type with methods := type.methods.map (Closure.rename ρ) }

def Callable.rename (ρ : Nat → Nat) : Callable → Callable
  | native primitive => native primitive
  | function closure => function (closure.rename ρ)
  | construct ref initializer => construct ref (initializer.map (Closure.rename ρ))

def Member.rename (ρ : Nat → Nat) : Member → Member
  | field value => field value
  | method closure => method (closure.rename ρ)

@[simp] lemma Callable.arity_rename (ρ : Nat → Nat) (callable : Callable) :
    (callable.rename ρ).arity = callable.arity := by
  rcases callable with ⟨⟨⟩⟩ | _ | ⟨_, _ | _⟩ <;> simp [rename, arity, Closure.arity, Closure.rename]

/-- The second machine is the first one with other identities. -/
structure Corresponds (ρ : Nat → Nat) (m m' : Machine) : Prop where
  frames : m'.frames = m.frames
  functions : m'.functions = m.functions.map (Closure.rename ρ)
  classes : m'.classes = m.classes.map (Class.rename ρ)
  instances : m'.instances = m.instances
  current : m'.current = m.current
  table : ∀ i, m'.table[ρ i]? = m.table[i]?
  output : m'.output = m.output
  clock : m'.clock = m.clock

namespace Corresponds

variable {ρ : Nat → Nat} {m m' : Machine}

lemma function? (h : Corresponds ρ m m') (ref : FunctionRef) :
    m'.function? ref = (m.function? ref).map (Closure.rename ρ) := by
  simp [Machine.function?, h.functions]

lemma class? (h : Corresponds ρ m m') (ref : ClassRef) :
    m'.class? ref = (m.class? ref).map (Class.rename ρ) := by
  simp [Machine.class?, h.classes]

lemma instance? (h : Corresponds ρ m m') (ref : InstanceRef) :
    m'.instance? ref = m.instance? ref := by
  simp [Machine.instance?, h.instances]

lemma methodAmong? (h : Corresponds ρ m m') (name : String) (count : Nat) (ref : ClassRef) :
    m'.methodAmong? name count ref = (m.methodAmong? name count ref).map (Closure.rename ρ) := by
  induction count generalizing ref with
  | zero => rfl
  | succ count ih =>
    simp only [Machine.methodAmong?, h.class?]
    cases m.class? ref with
    | none => rfl
    | some found =>
      simp only [Option.map_some, Option.bind_some, Class.rename, Bindings.get?_map]
      cases found.methods.get? name with
      | some method => rfl
      | none =>
        simp only [Option.map_none, Option.none_or]
        cases found.superclass with
        | none => rfl
        | some parent => exact ih parent

lemma method? (h : Corresponds ρ m m') (ref : ClassRef) (name : String) :
    m'.method? ref name = (m.method? ref name).map (Closure.rename ρ) :=
  h.methodAmong? name _ ref

lemma binder? (h : Corresponds ρ m m') (target : Reference) :
    m'.binder? (target.rename ρ) = m.binder? target := by
  simp only [Machine.binder?, Reference.id_rename, Reference.name_rename, h.table, h.frames,
    h.current]

lemma read? (h : Corresponds ρ m m') (target : Reference) :
    m'.read? (target.rename ρ) = m.read? target := by
  simp only [Machine.read?, h.binder?, h.frames, Reference.name_rename]

lemma super? (h : Corresponds ρ m m') (keyword : Reference) :
    m'.super? (keyword.rename ρ) = m.super? keyword := by
  simp only [Machine.super?, Reference.id_rename, h.table, h.frames, h.current]

lemma member? (h : Corresponds ρ m m') (self : InstanceRef) (name : String) :
    m'.member? self name = (m.member? self name).map (Member.rename ρ) := by
  simp only [Machine.member?, h.instance?, h.method?]
  cases m.instance? self with
  | none => rfl
  | some found =>
    cases hf : found.fields.get? name <;> cases hm : m.method? found.classRef name <;>
      simp [hf, hm, Member.rename]

lemma callable? (h : Corresponds ρ m m') (value : Value) :
    m'.callable? value = (m.callable? value).map (Callable.rename ρ) := by
  cases value with
  | nil | boolean | number | text | instanceAt => rfl
  | native => rfl
  | functionAt ref =>
    simp only [Machine.callable?, h.function?, Option.map_map]
    rfl
  | classAt ref =>
    simp only [Machine.callable?, h.method?]
    rfl

lemma className (h : Corresponds ρ m m') (ref : ClassRef) : m'.className ref = m.className ref := by
  simp only [Machine.className, h.class?]
  cases m.class? ref <;> rfl

lemma textOf (h : Corresponds ρ m m') (value : Value) : m'.textOf value = m.textOf value := by
  cases value with
  | nil | number | text | native => rfl
  | boolean value => cases value <;> rfl
  | functionAt ref =>
    simp only [Machine.textOf, h.function?]
    cases m.function? ref <;> simp [Closure.rename]
  | classAt ref => exact h.className ref
  | instanceAt ref =>
    simp only [Machine.textOf, h.instance?]
    cases m.instance? ref with
    | none => rfl
    | some found => simp [h.className]

lemma extend (h : Corresponds ρ m m') (hρ : Function.Injective ρ) (distances : List Distance) :
    Corresponds ρ { m with table := m.table.extend distances }
      { m' with
        table := m'.table.extend (distances.map fun (id, distance) => (ρ id, distance)) } := by
  refine { h with table := ?_ }
  have htable := h.table
  generalize m.table = table at htable
  generalize m'.table = table' at htable
  simp only [BindingTable.extend]
  induction distances generalizing table table' with
  | nil => exact htable
  | cons entry rest ih =>
    obtain ⟨id, distance⟩ := entry
    rw [List.map_cons, List.foldl_cons, List.foldl_cons]
    refine ih _ _ fun i => ?_
    simp only [Std.TreeMap.getElem?_insert, Std.compare_eq_iff_eq, hρ.eq_iff, htable]

end Corresponds

end Lox
