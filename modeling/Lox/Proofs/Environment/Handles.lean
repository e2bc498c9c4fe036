import Lox.Eval.Run
import Lox.Proofs.Machine.Outward
import Lox.Proofs.Outcome

/-! Frames as they are used: through handles, of which several can be to one frame. A name is looked up
or assigned outward from the frame of a handle, or in the frame a number of steps from it. -/

namespace Lox

namespace Frames

variable {f : Frames} {ref : FrameRef} {name : String}

def addGlobal (frames : Frames) : Frames :=
  ⟨frames.all.push ⟨∅, none⟩⟩

def addChild (frames : Frames) (enclosing : FrameRef) : Frames :=
  frames.push enclosing ∅

/-- The error that a name is not bound, at the token that it is. -/
def undefined (name : Name) : RuntimeError :=
  ⟨.undefinedVariable name.text, name.line⟩

/-- Looks a name up in a frame and then outward. -/
def get (frames : Frames) (ref : FrameRef) (name : Name) : Except RuntimeError Value :=
  (frames.find? ref name.text).elim (.error (undefined name)) .ok

def assign (frames : Frames) (ref : FrameRef) (name : Name) (value : Value) :
    Except RuntimeError Unit × Frames :=
  (frames.assign? ref name.text value).elim (.error (undefined name), frames) (.ok (), ·)

/-- Overwrites the binding of a name in the frame a number of steps outward, and says whether there is
one. -/
def assignAt (frames : Frames) (ref : FrameRef) (distance : Nat) (name : String) (value : Value) :
    Bool × Frames :=
  (frames.assignAt? ref distance name value).elim (false, frames) (true, ·)

lemma nearest?_eq_nearest? (ho : f.Ordered) {count count' : Nat} (h : ref.index < count)
    (h' : ref.index < count') : f.nearest? name count ref = f.nearest? name count' ref := by
  induction count generalizing ref count' with
  | zero => omega
  | succ count ih =>
    obtain ⟨count', rfl⟩ := Nat.exists_eq_add_one.mpr (show 0 < count' by omega)
    rw [nearest?, nearest?]
    split
    · rfl
    · cases houter : f.enclosing? ref with
      | none => rfl
      | some outer =>
        have hlt := ho ref outer houter
        exact ih (by omega) (by omega)

lemma Ordered.binder?_eq (ho : f.Ordered) (ref : FrameRef) (name : String) :
    f.binder? ref name =
      if f.binds ref name then some ref else (f.enclosing? ref).bind (f.binder? · name) := by
  rw [binder?, nearest?]
  split
  · rfl
  · cases houter : f.enclosing? ref with
    | none => rfl
    | some outer => exact nearest?_eq_nearest? ho (ho ref outer houter) (Nat.lt_succ_self _)

/-- Looking up is a loop: what the frame has, or else what the frame around has, up to the last one. -/
lemma Ordered.get_eq (ho : f.Ordered) (ref : FrameRef) (name : Name) :
    f.get ref name = match f.lookup? ref name.text, f.enclosing? ref with
      | some value, _ => .ok value
      | none, some outer => f.get outer name
      | none, none => .error (undefined name) := by
  rw [get, find?, ho.binder?_eq, binds]
  cases hlookup : f.lookup? ref name.text with
  | some value => simp [hlookup]
  | none => cases houter : f.enclosing? ref <;> rfl

lemma Ordered.assign_eq (ho : f.Ordered) (ref : FrameRef) (name : Name) (value : Value) :
    f.assign ref name value = match f.lookup? ref name.text, f.enclosing? ref with
      | some _, _ => (.ok (), f.define ref name.text value)
      | none, some outer => f.assign outer name value
      | none, none => (.error (undefined name), f) := by
  rw [assign, assign?, ho.binder?_eq, binds]
  cases hlookup : f.lookup? ref name.text with
  | some old => rfl
  | none => cases houter : f.enclosing? ref <;> rfl

lemma Ordered.exists_root (ho : f.Ordered) (hr : ref.index < f.all.size) :
    ∃ steps root bindings, f.ancestor? ref steps = some root ∧
      f.get? root = some ⟨bindings, none⟩ := by
  -- The frame around was made before.
  induction hi : ref.index using Nat.strongRecOn generalizing ref with
  | ind i ih =>
    obtain ⟨⟨bindings, enclosing⟩, hframe⟩ := Option.isSome_iff_exists.mp (index_lt_iff.mp hr)
    cases enclosing with
    | none => exact ⟨0, ref, bindings, rfl, hframe⟩
    | some outer =>
      have houter : f.enclosing? ref = some outer := by rw [enclosing?, hframe, Option.bind_some]
      have hlt := ho ref outer houter
      obtain ⟨steps, root, rest, hroot, hend⟩ := ih outer.index (hi ▸ hlt) (Nat.lt_trans hlt hr) rfl
      refine ⟨steps + 1, root, rest, ?_, hend⟩
      rw [ancestor?, houter, Option.bind_some, hroot]

lemma get?_addGlobal (f : Frames) (other : FrameRef) :
    f.addGlobal.get? other = if other = f.next then some ⟨∅, none⟩ else f.get? other := by
  have h : other.index = f.all.size ↔ other = f.next := by
    cases other
    simp [next]
  simp only [get?, addGlobal, Array.getElem?_push, h]

lemma enclosing?_addGlobal (f : Frames) (other : FrameRef) :
    f.addGlobal.enclosing? other = if other = f.next then none else f.enclosing? other := by
  rw [enclosing?, get?_addGlobal]
  split <;> rfl

lemma lookup?_addGlobal (f : Frames) (other : FrameRef) :
    f.addGlobal.lookup? other name = if other = f.next then none else f.lookup? other name := by
  rw [lookup?, get?_addGlobal]
  split <;> rfl

lemma Ordered.addGlobal (ho : f.Ordered) : f.addGlobal.Ordered := by
  intro ref outer houter
  rw [enclosing?_addGlobal] at houter
  split at houter
  · cases houter
  · exact ho ref outer houter

end Frames

section Runs

variable {m : Machine} {target : Reference}

lemma Run.outcome_read_global (h : m.table[target.id]? = none) :
    outcome (Run.read target) m = ((m.frames.get .globals target.name).mapError .error, m) := by
  have hread : m.read? target = m.frames.find? .globals target.name.text := by
    rw [Machine.read?, Machine.binder?, h]
    rfl
  rw [Run.read, outcome_bind, outcome_get]
  dsimp only
  rw [hread, Frames.get]
  cases m.frames.find? .globals target.name.text <;> rfl

lemma Run.outcome_read_at {distance : Nat} (h : m.table[target.id]? = some distance) :
    outcome (Run.read target) m =
      ((m.frames.findAt? m.current distance target.name.text).elim
        (.error (.error (Frames.undefined target.name))) .ok, m) := by
  have hread : m.read? target = m.frames.findAt? m.current distance target.name.text := by
    rw [Machine.read?, Machine.binder?, h, Frames.findAt?]
    dsimp only
    rw [Frames.binderAt?]
    cases m.frames.ancestor? m.current distance with
    | none => rfl
    | some frame =>
      rw [Option.filter_some, Frames.binds, Option.bind_some]
      cases hlookup : m.frames.lookup? frame target.name.text <;> simp [hlookup]
  rw [Run.read, outcome_bind, outcome_get]
  dsimp only
  rw [hread]
  cases m.frames.findAt? m.current distance target.name.text <;> rfl

lemma Run.outcome_assign_global (h : m.table[target.id]? = none) (value : Value) :
    outcome (Run.assign target value) m =
      ((m.frames.assign .globals target.name value).1.mapError .error,
        { m with frames := (m.frames.assign .globals target.name value).2 }) := by
  rw [Run.assign, outcome_bind, outcome_get, Frames.assign, Frames.assign?]
  dsimp only
  rw [Machine.binder?, h]
  dsimp only
  cases m.frames.binder? .globals target.name.text <;> rfl

lemma Run.outcome_assign_at {distance : Nat} (h : m.table[target.id]? = some distance)
    (value : Value) :
    outcome (Run.assign target value) m =
      let ended := m.frames.assignAt m.current distance target.name.text value
      (if ended.1 then .ok () else .error (.error (Frames.undefined target.name)),
        { m with frames := ended.2 }) := by
  rw [Run.assign, outcome_bind, outcome_get, Frames.assignAt, Frames.assignAt?]
  dsimp only
  rw [Machine.binder?, h]
  dsimp only
  cases m.frames.binderAt? m.current distance target.name.text <;> rfl

end Runs

/-- Frames, and the handles to them that there are, in the order in which they were made. -/
structure Handles where
  frames : Frames
  held : List FrameRef

/-- What is done with handles; each is told by its place among those that there are. -/
inductive Handles.Operation
  | global
  | child (handle : Nat)
  | clone (handle : Nat)
  | define (handle : Nat) (name : String) (value : Value)
  | assign (handle : Nat) (name : Name) (value : Value)
  | assignAt (handle distance : Nat) (name : String) (value : Value)

namespace Handles

def none : Handles :=
  ⟨⟨#[]⟩, []⟩

/-- Does something through a handle, if there is such a one. -/
def through (s : Handles) (handle : Nat) (act : FrameRef → Handles) : Handles :=
  s.held[handle]?.elim s act

def perform (s : Handles) : Operation → Handles
  | .global => ⟨s.frames.addGlobal, s.held ++ [s.frames.next]⟩
  | .child handle => s.through handle fun h => ⟨s.frames.addChild h, s.held ++ [s.frames.next]⟩
  | .clone handle => s.through handle fun h => { s with held := s.held ++ [h] }
  | .define handle name value =>
    s.through handle fun h => { s with frames := s.frames.define h name value }
  | .assign handle name value =>
    s.through handle fun h => { s with frames := (s.frames.assign h name value).2 }
  | .assignAt handle distance name value =>
    s.through handle fun h => { s with frames := (s.frames.assignAt h distance name value).2 }

def performAll (s : Handles) (ops : List Operation) : Handles :=
  ops.foldl perform s

/-- What holds however handles are used: a frame is made after the one around it, and no handle is to a
frame that there is not. -/
structure Sound (s : Handles) : Prop where
  ordered : s.frames.Ordered
  inRange : ∀ h ∈ s.held, h.index < s.frames.all.size

lemma Sound.extended {s : Handles} (hs : s.Sound) {frames : Frames} (ho : frames.Ordered)
    (hsize : frames.all.size = s.frames.all.size + 1) :
    Sound ⟨frames, s.held ++ [s.frames.next]⟩ := by
  refine ⟨ho, fun h hh => ?_⟩
  rcases List.mem_append.mp hh with hh | hh
  · exact hsize ▸ Nat.lt_succ_of_lt (hs.inRange h hh)
  · rw [List.mem_singleton.mp hh, hsize]
    exact Nat.lt_succ_self _

lemma Sound.redefined {s : Handles} (hs : s.Sound) (frame : FrameRef) (name : String) (value : Value) :
    Sound { s with frames := s.frames.define frame name value } :=
  ⟨hs.ordered.define name value, fun h hh => by
    rw [Frames.size_define]
    exact hs.inRange h hh⟩

lemma Sound.through {s : Handles} (hs : s.Sound) (handle : Nat) {act : FrameRef → Handles}
    (hact : ∀ h ∈ s.held, (act h).Sound) : (s.through handle act).Sound := by
  rw [Handles.through]
  cases hheld : s.held[handle]? with
  | none => exact hs
  | some h => exact hact h (List.mem_of_getElem? hheld)

lemma Sound.perform {s : Handles} (hs : s.Sound) (op : Operation) : (s.perform op).Sound := by
  cases op with
  | global => exact hs.extended hs.ordered.addGlobal (Array.size_push ..)
  | child handle =>
    exact hs.through handle fun h hh =>
      hs.extended (hs.ordered.push (hs.inRange h hh) ∅) (Array.size_push ..)
  | clone handle =>
    refine hs.through handle fun h hh => ⟨hs.ordered, fun other hother => ?_⟩
    rcases List.mem_append.mp hother with hother | hother
    · exact hs.inRange other hother
    · exact List.mem_singleton.mp hother ▸ hs.inRange h hh
  | define handle name value => exact hs.through handle fun h _ => hs.redefined h name value
  | assign handle name value =>
    refine hs.through handle fun h _ => ?_
    rw [Frames.assign, Frames.assign?]
    cases s.frames.binder? h name.text with
    | none => exact hs
    | some frame => exact hs.redefined frame name.text value
  | assignAt handle distance name value =>
    refine hs.through handle fun h _ => ?_
    rw [Frames.assignAt, Frames.assignAt?]
    cases s.frames.binderAt? h distance name with
    | none => exact hs
    | some frame => exact hs.redefined frame name value

lemma Sound.performAll {s : Handles} (hs : s.Sound) (ops : List Operation) :
    (s.performAll ops).Sound := by
  induction ops generalizing s with
  | nil => exact hs
  | cons op ops ih => exact ih (hs.perform op)

lemma sound_none : Sound none :=
  ⟨fun ref outer h => by simp [none, Frames.enclosing?, Frames.get?] at h, nofun⟩

end Handles

end Lox
