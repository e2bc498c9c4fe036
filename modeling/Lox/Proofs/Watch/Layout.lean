import Lox.Proofs.Machine.Frames
import Lox.Proofs.Watch.Evaluate

/-! Scopes and the frames made for them. A frame is laid for each scope, one inside the other, and it
binds the names that its scope has; it may get names that the scope does not have. -/

namespace Lox

namespace Scope

def HasPlainNames (scope : Scope) : Prop :=
  ∀ name, scope.contains name = true → IsPlain name

/-- In none of the scopes a name is being defined. -/
def Settled (scopes : List Scope) : Prop :=
  ∀ scope ∈ scopes, ∀ name, scope.get? name ≠ some .declared

lemma get?_single (name other : String) :
    (single name).get? other = if other = name then some .defined else none := by
  simp [single]

lemma contains_single (name other : String) : (single name).contains other = (other == name) := by
  by_cases h : other = name <;> simp [Bindings.contains, get?_single, h]

lemma single_not_plain {name : String} (hn : ¬ IsPlain name) : ¬ (single name).HasPlainNames := by
  intro h
  exact hn (h name (by simp [contains_single]))

lemma settled_single (name : String) {scopes : List Scope} (h : Settled scopes) :
    Settled (single name :: scopes) := by
  refine List.forall_mem_cons.mpr ⟨fun other => ?_, h⟩
  rw [get?_single]
  split <;> simp

lemma settled_empty {scopes : List Scope} (h : Settled scopes) : Settled (∅ :: scopes) :=
  List.forall_mem_cons.mpr ⟨fun _ => by simp, h⟩

lemma get?_of_contains {scope : Scope} {name : String} (h : scope.contains name = true)
    (hd : scope.get? name ≠ some .declared) : scope.get? name = some .defined := by
  obtain ⟨state, hs⟩ := Option.isSome_iff_exists.mp h
  cases state with
  | declared => exact absurd hs hd
  | defined => exact hs

lemma thisName_not_plain : ¬ IsPlain thisName := fun h => h.1 rfl

lemma superName_not_plain : ¬ IsPlain superName := fun h => h.2 rfl

end Scope

/-- The frames are made for the scopes, inside a class of the given kind or none. A scope with
`this`, or with `this` and `super`, is around a method. -/
inductive Laid (f : Frames) : EnclosingClass → List Scope → List FrameRef → Prop
  | top : Laid f .none [] []
  | block {owner scope scopes frame frames} : Laid f owner scopes frames →
      f.enclosing? frame = some (frames.headD .globals) → scope.HasPlainNames →
      (∀ name, scope.get? name = some .defined → f.binds frame name = true) →
      Laid f owner (scope :: scopes) (frame :: frames)
  | method {owner scopes frame frames self} : Laid f owner scopes frames →
      f.enclosing? frame = some (frames.headD .globals) →
      f.lookup? frame Scope.thisName = some (.instanceAt self) →
      Laid f .withoutSuperclass (Scope.single Scope.thisName :: scopes) (frame :: frames)
  | submethod {owner scopes frame upper frames self parent} : Laid f owner scopes frames →
      f.enclosing? upper = some (frames.headD .globals) →
      f.lookup? upper Scope.superName = some (.classAt parent) →
      f.enclosing? frame = some upper →
      f.lookup? frame Scope.thisName = some (.instanceAt self) →
      Laid f .withSuperclass
        (Scope.single Scope.thisName :: Scope.single Scope.superName :: scopes)
        (frame :: upper :: frames)

namespace Laid

variable {f g : Frames} {owner : EnclosingClass} {scopes : List Scope} {frames : List FrameRef}

lemma length_eq (h : Laid f owner scopes frames) : frames.length = scopes.length := by
  induction h with
  | top => rfl
  | block _ _ _ _ ih | method _ _ _ ih | submethod _ _ _ _ _ ih => simp [ih]

lemma ancestor?_eq (hroot : f.enclosing? .globals = none) (h : Laid f owner scopes frames)
    (distance : Nat) :
    f.ancestor? (frames.headD .globals) distance = (frames ++ [.globals])[distance]? := by
  have outward {frame outer : FrameRef} {frames : List FrameRef}
      (henclosing : f.enclosing? frame = some outer)
      (ih : ∀ distance, f.ancestor? outer distance = (frames ++ [.globals])[distance]?)
      (distance : Nat) :
      f.ancestor? frame distance = (frame :: frames ++ [.globals])[distance]? := by
    cases distance with
    | zero => rfl
    | succ distance =>
      rw [Frames.ancestor?, henclosing, Option.bind_some, ih]
      rfl
  induction h generalizing distance with
  | top =>
    cases distance with
    | zero => rfl
    | succ distance => simp [Frames.ancestor?, hroot]
  | block _ henclosing _ _ ih | method _ henclosing _ ih => exact outward henclosing ih distance
  | submethod _ hupper _ henclosing _ ih => exact outward henclosing (outward hupper ih) distance

lemma binds_of_defined (h : Laid f owner scopes frames) {distance : Nat} {scope : Scope}
    {name : String} (hs : scopes[distance]? = some scope) (hn : scope.get? name = some .defined) :
    ∃ frame, frames[distance]? = some frame ∧ f.binds frame name = true := by
  have single {frame : FrameRef} {special : String} {value : Value}
      (hlookup : f.lookup? frame special = some value)
      (hn : (Scope.single special).get? name = some .defined) : f.binds frame name = true := by
    obtain rfl : name = special := by
      rw [Scope.get?_single] at hn
      by_contra hne
      simp [hne] at hn
    simp [Frames.binds, hlookup]
  induction h generalizing distance with
  | top => simp at hs
  | block _ _ _ hbinds ih =>
    cases distance with
    | zero =>
      obtain rfl := Option.some.inj hs
      exact ⟨_, rfl, hbinds name hn⟩
    | succ distance => exact ih hs
  | method _ _ hthis ih =>
    cases distance with
    | zero =>
      obtain rfl := Option.some.inj hs
      exact ⟨_, rfl, single hthis hn⟩
    | succ distance => exact ih hs
  | submethod _ _ hsuper _ hthis ih =>
    rcases distance with _ | _ | distance
    · obtain rfl := Option.some.inj hs
      exact ⟨_, rfl, single hthis hn⟩
    · obtain rfl := Option.some.inj hs
      exact ⟨_, rfl, single hsuper hn⟩
    · exact ih hs

lemma binds_of_found (h : Laid f owner scopes frames) (hsettled : Scope.Settled scopes.tail)
    {name : String} (hd : Scope.isBeingDefined name scopes = false) {distance : Nat}
    (hfound : scopes.findIdx? (·.contains name) = some distance) :
    ∃ frame, frames[distance]? = some frame ∧ f.binds frame name = true := by
  obtain ⟨hlt, hcontains, -⟩ := List.findIdx?_eq_some_iff_getElem.mp hfound
  have hscope : scopes[distance]? = some scopes[distance] := List.getElem?_eq_getElem hlt
  refine h.binds_of_defined hscope (Scope.get?_of_contains hcontains ?_)
  cases scopes with
  | nil => simp at hlt
  | cons scope outer =>
    cases distance with
    | zero => simpa [Scope.isBeingDefined] using hd
    | succ distance => exact hsettled _ (List.getElem_mem (by simpa using hlt)) name

/-- Inside a class with a superclass, `super` is found behind `this`, and the frames made for their
scopes bind a class and an instance. -/
lemma exists_super (h : Laid f .withSuperclass scopes frames) :
    ∃ distance frame upper self parent,
      scopes.findIdx? (·.contains Scope.superName) = some (distance + 1) ∧
      frames[distance]? = some frame ∧ f.lookup? frame Scope.thisName = some (.instanceAt self) ∧
      frames[distance + 1]? = some upper ∧
      f.lookup? upper Scope.superName = some (.classAt parent) := by
  generalize howner : EnclosingClass.withSuperclass = owner at h
  induction h with
  | top | method => simp at howner
  | block _ _ hplain _ ih =>
    obtain ⟨distance, frame, upper, self, parent, hfound, hframe, hthis, hupper, hsuper⟩ := ih howner
    refine ⟨distance + 1, frame, upper, self, parent, ?_, hframe, hthis, hupper, hsuper⟩
    have hnot := mt (hplain Scope.superName) Scope.superName_not_plain
    rw [List.findIdx?_cons, if_neg hnot, hfound]
    rfl
  | submethod _ _ hsuper _ hthis _ =>
    refine ⟨0, _, _, _, _, ?_, rfl, hthis, rfl, hsuper⟩
    simp [List.findIdx?_cons, Scope.contains_single, Scope.thisName, Scope.superName]

lemma follows {free : Option FrameRef} (h : Laid f owner scopes frames)
    (hf : Frames.Follows free f g) : Laid g owner scopes frames := by
  have enclosing {ref outer : FrameRef} (hr : f.enclosing? ref = some outer) :
      g.enclosing? ref = some outer := by
    rw [hf.enclosing ref (Frames.index_lt_of_enclosing? hr), hr]
  have special {ref outer : FrameRef} {name : String} {value : Value}
      (hr : f.enclosing? ref = some outer) (hn : ¬ Scope.IsPlain name)
      (hvalue : f.lookup? ref name = some value) : g.lookup? ref name = some value := by
    rw [hf.special ref name (Frames.index_lt_of_enclosing? hr) hn, hvalue]
  induction h with
  | top => exact .top
  | block _ henclosing hplain hbinds ih =>
    exact .block ih (enclosing henclosing) hplain fun name hn => hf.binds _ _ (hbinds name hn)
  | method _ henclosing hthis ih =>
    exact .method ih (enclosing henclosing) (special henclosing Scope.thisName_not_plain hthis)
  | submethod _ hupper hsuper henclosing hthis ih =>
    exact .submethod ih (enclosing hupper) (special hupper Scope.superName_not_plain hsuper)
      (enclosing henclosing) (special henclosing Scope.thisName_not_plain hthis)

lemma of_plain {scope : Scope} (h : Laid f owner (scope :: scopes) frames)
    (hplain : scope.HasPlainNames) :
    ∃ frame outer, frames = frame :: outer ∧ Laid f owner scopes outer ∧
      f.enclosing? frame = some (outer.headD .globals) ∧
      ∀ name, scope.get? name = some .defined → f.binds frame name = true := by
  cases h with
  | block hlaid henclosing _ hbinds => exact ⟨_, _, rfl, hlaid, henclosing, hbinds⟩
  | method => exact absurd hplain (Scope.single_not_plain Scope.thisName_not_plain)
  | submethod => exact absurd hplain (Scope.single_not_plain Scope.thisName_not_plain)

end Laid

end Lox
