import Lox.Proofs.Environment.Handles

/-! Names that are looked up outward are found where they are found by exact distance, and a write through
one handle is seen through another only by a read of the same name in the same frame. -/

namespace Lox

namespace Frames

variable {f g : Frames} {ref frame : FrameRef} {name other : String} {value : Value} {distance : Nat}

lemma findAt?_eq_some_iff : f.findAt? ref distance name = some value ↔
    ∃ frame, f.ancestor? ref distance = some frame ∧ f.lookup? frame name = some value :=
  Option.bind_eq_some_iff

lemma binds_eq_false_of_findAt? (h : f.findAt? ref distance name = none)
    (hframe : f.ancestor? ref distance = some frame) : f.binds frame name = false := by
  rw [findAt?, hframe, Option.bind_some] at h
  rw [binds, h]
  rfl

lemma binder?_of_least (ho : f.Ordered) (h : f.ancestor? ref distance = some frame)
    (hvalue : f.lookup? frame name = some value)
    (hleast : ∀ nearer < distance, f.findAt? ref nearer name = none) :
    f.binder? ref name = some frame :=
  binder?_eq_some ho h (by rw [binds, hvalue]; rfl) fun nearer hlt _ hother =>
    binds_eq_false_of_findAt? (hleast nearer hlt) hother

lemma get_of_least (ho : f.Ordered) {name : Name} (h : f.findAt? ref distance name.text = some value)
    (hleast : ∀ nearer < distance, f.findAt? ref nearer name.text = none) :
    f.get ref name = .ok value := by
  obtain ⟨frame, hframe, hvalue⟩ := findAt?_eq_some_iff.mp h
  rw [get, find?, binder?_of_least ho hframe hvalue hleast, Option.bind_some, hvalue]
  rfl

lemma assign_of_least (ho : f.Ordered) {name : Name}
    (h : f.findAt? ref distance name.text = some value)
    (hleast : ∀ nearer < distance, f.findAt? ref nearer name.text = none) (new : Value) :
    (f.assignAt ref distance name.text new).1 = true ∧
      f.assign ref name new = (.ok (), (f.assignAt ref distance name.text new).2) := by
  obtain ⟨frame, hframe, hvalue⟩ := findAt?_eq_some_iff.mp h
  have hbinds : f.binds frame name.text = true := by
    rw [binds, hvalue]
    rfl
  rw [assign, assign?, binder?_of_least ho hframe hvalue hleast, assignAt, assignAt?,
    binderAt?_eq_some_iff.mpr ⟨hframe, hbinds⟩]
  exact ⟨rfl, rfl⟩

lemma binder?_of_nowhere (h : ∀ distance, f.findAt? ref distance name = none) :
    f.binder? ref name = none :=
  binder?_eq_none fun distance _ hframe => binds_eq_false_of_findAt? (h distance) hframe

lemma get_of_nowhere {name : Name} (h : ∀ distance, f.findAt? ref distance name.text = none) :
    f.get ref name = .error (undefined name) := by
  rw [get, find?, binder?_of_nowhere h]
  rfl

lemma assign_of_nowhere {name : Name} (h : ∀ distance, f.findAt? ref distance name.text = none)
    (new : Value) : f.assign ref name new = (.error (undefined name), f) := by
  rw [assign, assign?, binder?_of_nowhere h]
  rfl

/-- An assignment that fails leaves the frames as they are; one that does not writes to the frame that
binds the name nearest. -/
lemma assign_cases (f : Frames) (ref : FrameRef) (name : Name) (value : Value) :
    f.assign ref name value = (.error (undefined name), f) ∨
      ∃ frame, f.binder? ref name.text = some frame ∧ f.binds frame name.text = true ∧
        f.assign ref name value = (.ok (), f.define frame name.text value) := by
  rw [assign, assign?]
  cases hbinder : f.binder? ref name.text with
  | none => exact .inl rfl
  | some frame => exact .inr ⟨frame, rfl, binds_of_nearest? hbinder, rfl⟩

lemma assignAt_cases (f : Frames) (ref : FrameRef) (distance : Nat) (name : String) (value : Value) :
    f.assignAt ref distance name value = (false, f) ∨
      ∃ frame, f.ancestor? ref distance = some frame ∧ f.binds frame name = true ∧
        f.assignAt ref distance name value = (true, f.define frame name value) := by
  rw [assignAt, assignAt?]
  cases hbinder : f.binderAt? ref distance name with
  | none => exact .inl rfl
  | some frame =>
    obtain ⟨hframe, hbinds⟩ := binderAt?_eq_some_iff.mp hbinder
    exact .inr ⟨frame, hframe, hbinds, rfl⟩

/-- The same frames with the same names bound, but for what one name is bound to in one of them. -/
structure SameBut (frame : FrameRef) (name : String) (f g : Frames) : Prop where
  size : f.all.size = g.all.size
  enclosing : ∀ ref, f.enclosing? ref = g.enclosing? ref
  binds : ∀ ref other, f.binds ref other = g.binds ref other
  lookup : ∀ ref other, ¬ (ref = frame ∧ other = name) → f.lookup? ref other = g.lookup? ref other

lemma sameBut_define (h : f.binds frame name = true) (value : Value) :
    SameBut frame name f (f.define frame name value) where
  size := (size_define ..).symm
  enclosing ref := (enclosing?_define ..).symm
  binds ref other := by
    rw [Bool.eq_iff_iff, binds_define_iff]
    refine ⟨.inl, ?_⟩
    rintro (hb | ⟨rfl, rfl, -⟩)
    · exact hb
    · exact h
  lookup ref other hne := by rw [lookup?_define, if_neg fun h => hne ⟨h.1.symm, h.2⟩]

namespace SameBut

variable (h : SameBut frame name f g)

include h

lemma ancestor? (ref : FrameRef) (distance : Nat) :
    f.ancestor? ref distance = g.ancestor? ref distance := by
  induction distance generalizing ref with
  | zero => rfl
  | succ distance ih =>
    rw [Frames.ancestor?, Frames.ancestor?, h.enclosing ref]
    exact Option.bind_congr fun outer _ => ih outer

lemma nearest? (other : String) (count : Nat) (ref : FrameRef) :
    f.nearest? other count ref = g.nearest? other count ref := by
  induction count generalizing ref with
  | zero => rfl
  | succ count ih =>
    rw [Frames.nearest?, Frames.nearest?, h.enclosing ref, h.binds]
    congr 1
    exact Option.bind_congr fun outer _ => ih outer

lemma binder? (ref : FrameRef) (other : String) : f.binder? ref other = g.binder? ref other :=
  h.nearest? other _ ref

lemma binderAt? (ref : FrameRef) (distance : Nat) (other : String) :
    f.binderAt? ref distance other = g.binderAt? ref distance other := by
  rw [Frames.binderAt?, Frames.binderAt?, h.ancestor?]
  exact congrArg (Option.filter · _) (funext fun outer => h.binds outer other)

lemma define (ref : FrameRef) (other : String) (value : Value) :
    SameBut frame name (f.define ref other value) (g.define ref other value) where
  size := by rw [size_define, size_define, h.size]
  enclosing target := by rw [enclosing?_define, enclosing?_define, h.enclosing]
  binds target n := by
    rw [Bool.eq_iff_iff, binds_define_iff, binds_define_iff, h.binds, h.size]
  lookup target n hne := by
    have hsome : (f.get? target).isSome = (g.get? target).isSome := by
      rw [Bool.eq_iff_iff, ← index_lt_iff, ← index_lt_iff, h.size]
    rw [lookup?_define, lookup?_define, h.lookup target n hne]
    congr 1
    cases hf : f.get? target <;> cases hg : g.get? target <;> simp_all

lemma addGlobal : SameBut frame name f.addGlobal g.addGlobal := by
  have hnext : f.next = g.next := congrArg FrameRef.mk h.size
  refine ⟨?_, fun ref => ?_, fun ref other => ?_, fun ref other hne => ?_⟩
  · rw [Frames.addGlobal, Frames.addGlobal, Array.size_push, Array.size_push, h.size]
  · rw [enclosing?_addGlobal, enclosing?_addGlobal, hnext, h.enclosing]
  · have hbinds := h.binds ref other
    rw [Frames.binds, lookup?_addGlobal, Frames.binds, lookup?_addGlobal, hnext]
    split
    · rfl
    · exact hbinds
  · rw [lookup?_addGlobal, lookup?_addGlobal, hnext, h.lookup ref other hne]

lemma addChild (enclosing : FrameRef) :
    SameBut frame name (f.addChild enclosing) (g.addChild enclosing) := by
  have hnext : f.next = g.next := congrArg FrameRef.mk h.size
  refine ⟨?_, fun ref => ?_, fun ref other => ?_, fun ref other hne => ?_⟩
  · rw [Frames.addChild, Frames.addChild, push, push, Array.size_push, Array.size_push, h.size]
  · rw [Frames.addChild, Frames.addChild, enclosing?_push, enclosing?_push, hnext, h.enclosing]
  · have hbinds := h.binds ref other
    rw [Frames.addChild, Frames.addChild, Frames.binds, lookup?_push, Frames.binds, lookup?_push, hnext]
    split
    · rfl
    · exact hbinds
  · rw [Frames.addChild, Frames.addChild, lookup?_push, lookup?_push, hnext, h.lookup ref other hne]

lemma assign (ref : FrameRef) (other : Name) (value : Value) :
    SameBut frame name (f.assign ref other value).2 (g.assign ref other value).2 := by
  rw [Frames.assign, Frames.assign?, Frames.assign, Frames.assign?, h.binder?]
  cases g.binder? ref other.text with
  | none => exact h
  | some binder => exact h.define binder other.text value

lemma assignAt (ref : FrameRef) (distance : Nat) (other : String) (value : Value) :
    SameBut frame name (f.assignAt ref distance other value).2
      (g.assignAt ref distance other value).2 := by
  rw [Frames.assignAt, Frames.assignAt?, Frames.assignAt, Frames.assignAt?, h.binderAt?]
  cases g.binderAt? ref distance other with
  | none => exact h
  | some binder => exact h.define binder other value

/-- The difference is seen only by a search that ends in the frame, for the name. -/
lemma get {ref : FrameRef} {other : Name} (hne : g.get ref other ≠ f.get ref other) :
    other.text = name ∧ g.binder? ref other.text = some frame := by
  rw [Frames.get, Frames.get, find?, find?, h.binder?] at hne
  cases hbinder : g.binder? ref other.text with
  | none => simp [hbinder] at hne
  | some binder =>
    rw [hbinder, Option.bind_some, Option.bind_some] at hne
    by_cases hsame : binder = frame ∧ other.text = name
    · exact ⟨hsame.2, congrArg some hsame.1⟩
    · rw [h.lookup binder other.text hsame] at hne
      exact absurd rfl hne

lemma findAt? {ref : FrameRef} {distance : Nat} {other : String}
    (hne : g.findAt? ref distance other ≠ f.findAt? ref distance other) :
    other = name ∧ g.ancestor? ref distance = some frame := by
  rw [Frames.findAt?, Frames.findAt?, h.ancestor?] at hne
  cases hancestor : g.ancestor? ref distance with
  | none => simp [hancestor] at hne
  | some ancestor =>
    rw [hancestor, Option.bind_some, Option.bind_some] at hne
    by_cases hsame : ancestor = frame ∧ other = name
    · exact ⟨hsame.2, congrArg some hsame.1⟩
    · rw [h.lookup ancestor other hsame] at hne
      exact absurd rfl hne

end SameBut

end Frames

namespace Handles

variable {frame : FrameRef} {name : String} {s t : Handles}

/-- The same handles, to frames that are the same but for what a name is bound to in one of them. -/
structure SameBut (frame : FrameRef) (name : String) (s t : Handles) : Prop where
  frames : s.frames.SameBut frame name t.frames
  held : s.held = t.held

lemma SameBut.through (h : SameBut frame name s t) (handle : Nat) {act act' : FrameRef → Handles}
    (hact : ∀ ref, SameBut frame name (act ref) (act' ref)) :
    SameBut frame name (s.through handle act) (t.through handle act') := by
  rw [Handles.through, Handles.through, h.held]
  cases t.held[handle]? with
  | none => exact h
  | some ref => exact hact ref

lemma SameBut.perform (h : SameBut frame name s t) (op : Operation) :
    SameBut frame name (s.perform op) (t.perform op) := by
  have hnext : s.frames.next = t.frames.next := congrArg FrameRef.mk h.frames.size
  have hheld : s.held ++ [s.frames.next] = t.held ++ [t.frames.next] := by rw [h.held, hnext]
  cases op with
  | global => exact ⟨h.frames.addGlobal, hheld⟩
  | child handle => exact h.through handle fun ref => ⟨h.frames.addChild ref, hheld⟩
  | clone handle => exact h.through handle fun ref => ⟨h.frames, congrArg (· ++ [ref]) h.held⟩
  | define handle name value =>
    exact h.through handle fun ref => ⟨h.frames.define ref name value, h.held⟩
  | assign handle name value =>
    exact h.through handle fun ref => ⟨h.frames.assign ref name value, h.held⟩
  | assignAt handle distance name value =>
    exact h.through handle fun ref => ⟨h.frames.assignAt ref distance name value, h.held⟩

lemma SameBut.performAll (h : SameBut frame name s t) (ops : List Operation) :
    SameBut frame name (s.performAll ops) (t.performAll ops) := by
  induction ops generalizing s t with
  | nil => exact h
  | cons op ops ih => exact ih (h.perform op)

/-- However handles are used after a write or without it, the reads that differ are of one name, and end
in one frame. -/
def SeenOnlyAt (frame : FrameRef) (name : String) (s : Handles) (written : Frames) : Prop :=
  ∀ ops, let plain := s.performAll ops
    let after := performAll { s with frames := written } ops
    after.held = plain.held ∧ ∀ h ∈ after.held,
      (∀ other : Name, after.frames.get h other ≠ plain.frames.get h other →
        other.text = name ∧ after.frames.binder? h other.text = some frame) ∧
      ∀ distance other, after.frames.findAt? h distance other ≠ plain.frames.findAt? h distance other →
        other = name ∧ after.frames.ancestor? h distance = some frame

lemma seenOnlyAt_define (h : s.frames.binds frame name = true) (value : Value) :
    SeenOnlyAt frame name s (s.frames.define frame name value) := by
  have hwritten : SameBut frame name s { s with frames := s.frames.define frame name value } :=
    ⟨Frames.sameBut_define h value, rfl⟩
  intro ops
  have hsame := hwritten.performAll ops
  exact ⟨hsame.held.symm, fun _ _ => ⟨fun _ hne => hsame.frames.get hne,
    fun _ _ hne => hsame.frames.findAt? hne⟩⟩

/-- In all frames that come of making and using handles, every chain of frames ends. A name that is bound
at some distance from a handle is got and assigned at the least one, as by that distance; if it is bound
at none, both fail with the error that it is undefined, and nothing changes. An assignment that fails
changes nothing; after one that succeeds the only reads that differ, through any handle and at any time
later, are of that name in that frame. -/
theorem search_agrees (ops : List Operation) {h : FrameRef} (hh : h ∈ (none.performAll ops).held)
    (name : Name) :
    let s := none.performAll ops
    (∃ steps root bindings, s.frames.ancestor? h steps = some root ∧
        s.frames.get? root = some ⟨bindings, .none⟩) ∧
      (∀ distance value, s.frames.findAt? h distance name.text = some value →
        (∀ nearer < distance, s.frames.findAt? h nearer name.text = .none) →
        s.frames.get h name = .ok value ∧ ∀ new,
          (s.frames.assignAt h distance name.text new).1 = true ∧
            s.frames.assign h name new = (.ok (), (s.frames.assignAt h distance name.text new).2)) ∧
      ((∀ distance, s.frames.findAt? h distance name.text = .none) →
        let undefined : RuntimeError := ⟨.undefinedVariable name.text, name.line⟩
        s.frames.get h name = .error undefined ∧
          ∀ new, s.frames.assign h name new = (.error undefined, s.frames)) ∧
      (∀ new, (s.frames.assign h name new).1 ≠ .ok () →
        (s.frames.assign h name new).2 = s.frames) ∧
      (∀ distance new, (s.frames.assignAt h distance name.text new).1 = false →
        (s.frames.assignAt h distance name.text new).2 = s.frames) ∧
      (∀ new, (s.frames.assign h name new).1 = .ok () → ∃ frame,
        s.frames.binder? h name.text = some frame ∧
          SeenOnlyAt frame name.text s (s.frames.assign h name new).2) ∧
      ∀ distance new, (s.frames.assignAt h distance name.text new).1 = true → ∃ frame,
        s.frames.ancestor? h distance = some frame ∧
          SeenOnlyAt frame name.text s (s.frames.assignAt h distance name.text new).2 := by
  intro s
  have hs : s.Sound := sound_none.performAll ops
  have ho := hs.ordered
  refine ⟨ho.exists_root (hs.inRange h hh), fun distance value hvalue hleast =>
      ⟨Frames.get_of_least ho hvalue hleast, Frames.assign_of_least ho hvalue hleast⟩,
    fun hnone => ⟨Frames.get_of_nowhere hnone, Frames.assign_of_nowhere hnone⟩,
    fun new hfails => ?_, fun distance new hfails => ?_, fun new hok => ?_, fun distance new hok => ?_⟩
  · rcases s.frames.assign_cases h name new with heq | ⟨frame, -, -, heq⟩
    · rw [heq]
    · exact absurd (congrArg Prod.fst heq) hfails
  · rcases s.frames.assignAt_cases h distance name.text new with heq | ⟨frame, -, -, heq⟩
    · rw [heq]
    · rw [heq] at hfails
      cases hfails
  · rcases s.frames.assign_cases h name new with heq | ⟨frame, hbinder, hbinds, heq⟩
    · rw [heq] at hok
      cases hok
    · rw [heq]
      exact ⟨frame, hbinder, seenOnlyAt_define hbinds new⟩
  · rcases s.frames.assignAt_cases h distance name.text new with heq | ⟨frame, hframe, hbinds, heq⟩
    · rw [heq] at hok
      cases hok
    · rw [heq]
      exact ⟨frame, hframe, seenOnlyAt_define hbinds new⟩

/-- A clone of the handle to a frame within the global one, which binds a name. -/
theorem search_agrees_of_clone :
    let ops : List Operation := [.global, .define 0 "a" .nil, .child 0, .clone 1]
    let frames := (none.performAll ops).frames
    ⟨1⟩ ∈ (none.performAll ops).held ∧ frames.get ⟨1⟩ ⟨"a", 3⟩ = .ok .nil ∧
      ∀ new, frames.assign ⟨1⟩ ⟨"a", 3⟩ new = (.ok (), (frames.assignAt ⟨1⟩ 1 "a" new).2) := by
  intro ops frames
  have hheld : ⟨1⟩ ∈ (none.performAll ops).held := by decide
  obtain ⟨-, hleast, -⟩ := search_agrees ops hheld ⟨"a", 3⟩
  obtain ⟨hget, hassign⟩ := hleast 1 .nil rfl fun nearer hlt => by
    obtain rfl : nearer = 0 := by omega
    rfl
  exact ⟨hheld, hget, fun new => (hassign new).2⟩

end Handles

end Lox
