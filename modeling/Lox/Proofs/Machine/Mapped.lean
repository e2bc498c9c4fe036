import Lox.Machine.State
import Lox.Proofs.Bindings

/-! Machines whose functions and methods are those of another machine after a change that keeps what
they are called and how many arguments they take. -/

namespace Lox

variable {c : Closure → Closure} {m m' : Machine}

def Class.mapMethods (c : Closure → Closure) (type : Class) : Class :=
  { type with methods := type.methods.map c }

def Callable.map (c : Closure → Closure) : Callable → Callable
  | native primitive => native primitive
  | function closure => function (c closure)
  | construct ref initializer => construct ref (initializer.map c)

def Member.map (c : Closure → Closure) : Member → Member
  | field value => field value
  | method closure => method (c closure)

namespace Machine

structure Mapped (c : Closure → Closure) (m m' : Machine) : Prop where
  functions : m'.functions = m.functions.map c
  classes : m'.classes = m.classes.map (Class.mapMethods c)
  instances : m'.instances = m.instances

namespace Mapped

lemma function? (h : Mapped c m m') (ref : FunctionRef) :
    m'.function? ref = (m.function? ref).map c := by
  simp [Machine.function?, h.functions]

lemma class? (h : Mapped c m m') (ref : ClassRef) :
    m'.class? ref = (m.class? ref).map (Class.mapMethods c) := by
  simp [Machine.class?, h.classes]

lemma instance? (h : Mapped c m m') (ref : InstanceRef) : m'.instance? ref = m.instance? ref := by
  simp [Machine.instance?, h.instances]

lemma methodAmong? (h : Mapped c m m') (name : String) (count : Nat) (ref : ClassRef) :
    m'.methodAmong? name count ref = (m.methodAmong? name count ref).map c := by
  induction count generalizing ref with
  | zero => rfl
  | succ count ih =>
    simp only [Machine.methodAmong?, h.class?]
    cases m.class? ref with
    | none => rfl
    | some found =>
      simp only [Option.map_some, Option.bind_some, Class.mapMethods, Bindings.get?_map]
      cases found.methods.get? name with
      | some method => rfl
      | none =>
        simp only [Option.map_none, Option.none_or]
        cases found.superclass with
        | none => rfl
        | some parent => exact ih parent

lemma method? (h : Mapped c m m') (ref : ClassRef) (name : String) :
    m'.method? ref name = (m.method? ref name).map c :=
  h.methodAmong? name _ ref

lemma member? (h : Mapped c m m') (self : InstanceRef) (name : String) :
    m'.member? self name = (m.member? self name).map (Member.map c) := by
  simp only [Machine.member?, h.instance?, h.method?]
  cases m.instance? self with
  | none => rfl
  | some found =>
    cases hf : found.fields.get? name <;> cases hm : m.method? found.classRef name <;>
      simp [hf, hm, Member.map]

lemma callable? (h : Mapped c m m') (value : Value) :
    m'.callable? value = (m.callable? value).map (Callable.map c) := by
  cases value with
  | nil | boolean | number | text | instanceAt => rfl
  | native => rfl
  | functionAt ref =>
    simp only [Machine.callable?, h.function?, Option.map_map]
    rfl
  | classAt ref =>
    simp only [Machine.callable?, h.method?]
    rfl

lemma className (h : Mapped c m m') (ref : ClassRef) : m'.className ref = m.className ref := by
  simp only [Machine.className, h.class?]
  cases m.class? ref <;> rfl

lemma textOf (h : Mapped c m m') (hc : ∀ closure, (c closure).decl.name.text = closure.decl.name.text)
    (value : Value) : m'.textOf value = m.textOf value := by
  cases value with
  | nil | number | text | native => rfl
  | boolean value => cases value <;> rfl
  | functionAt ref =>
    simp only [Machine.textOf, h.function?]
    cases m.function? ref <;> simp [hc]
  | classAt ref => exact h.className ref
  | instanceAt ref =>
    simp only [Machine.textOf, h.instance?]
    cases m.instance? ref with
    | none => rfl
    | some found => simp [h.className]

end Mapped

end Machine

lemma Callable.arity_map (hc : ∀ closure, (c closure).arity = closure.arity) (callable : Callable) :
    (callable.map c).arity = callable.arity := by
  rcases callable with ⟨⟨⟩⟩ | _ | ⟨_, _ | _⟩ <;> simp [map, arity, hc]

end Lox
