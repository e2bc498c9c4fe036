import Lox.Proofs.Grammar.Formed
import Lox.Proofs.Log.Evaluate
import Lox.Proofs.Machine.Steps

/-! What a log tells of the machine: the frames that were made for one name bind that name and no other,
and an initializer that is a value was bound to an instance. -/

namespace Lox

namespace Frames

variable {f g h : Frames} {free : Option FrameRef} {ref other : FrameRef} {name : String}

/-- What is so of the frames as they are later in a run: none has lost a name, and of those that there were
only the free one may have got some. -/
structure Spares (free : Option FrameRef) (f g : Frames) : Prop where
  size : f.all.size ≤ g.all.size
  enclosing : ∀ ref, ref.index < f.all.size → g.enclosing? ref = f.enclosing? ref
  binds : ∀ ref name, f.binds ref name = true → g.binds ref name = true
  names : ∀ ref name, ref.index < f.all.size → free ≠ some ref → g.binds ref name = true →
    f.binds ref name = true

lemma Follows.spares (hfg : Follows free f g) : Spares free f g :=
  ⟨hfg.size, hfg.enclosing, hfg.binds, hfg.names⟩

namespace Spares

lemma refl (free : Option FrameRef) (f : Frames) : Spares free f f :=
  (Follows.refl free f).spares

lemma trans_of_names {free' free'' : Option FrameRef} (hfg : Spares free' f g)
    (hgh : Spares free'' g h)
    (hnames : ∀ ref, ref.index < f.all.size → free ≠ some ref → free' ≠ some ref ∧ free'' ≠ some ref) :
    Spares free f h where
  size := Nat.le_trans hfg.size hgh.size
  enclosing ref hr := by
    have hr' := Nat.lt_of_lt_of_le hr hfg.size
    rw [hgh.enclosing ref hr', hfg.enclosing ref hr]
  binds ref name hb := hgh.binds ref name (hfg.binds ref name hb)
  names ref name hr hne hb := by
    obtain ⟨hne', hne''⟩ := hnames ref hr hne
    have hr' := Nat.lt_of_lt_of_le hr hfg.size
    exact hfg.names ref name hr hne' (hgh.names ref name hr' hne'' hb)

lemma trans (hfg : Spares free f g) (hgh : Spares free g h) : Spares free f h :=
  hfg.trans_of_names hgh fun _ _ hne => ⟨hne, hne⟩

/-- What is done in a frame that was made meanwhile does not count. -/
lemma trans_fresh (hfg : Spares none f g) (hgh : Spares (some ref) g h)
    (hr : f.all.size ≤ ref.index) : Spares none f h := by
  refine hfg.trans_of_names hgh fun other ho hne => ⟨hne, fun heq => ?_⟩
  rw [Option.some.inj heq] at hr
  omega

lemma of_none (hfg : Spares none f g) : Spares free f g :=
  ⟨hfg.size, hfg.enclosing, hfg.binds, fun ref name hr _ hb => hfg.names ref name hr (by simp) hb⟩

lemma binds_iff (hfg : Spares free f g) (hr : ref.index < f.all.size) (hne : free ≠ some ref) :
    g.binds ref name = true ↔ f.binds ref name = true :=
  ⟨hfg.names ref name hr hne, hfg.binds ref name⟩

end Spares

lemma spares_push (enclosing : FrameRef) (bindings : Bindings Value) :
    Spares free f (f.push enclosing bindings) :=
  (follows_push enclosing bindings).spares

lemma spares_define (value : Value) : Spares (some ref) f (f.define ref name value) where
  size := Nat.le_of_eq (size_define ..).symm
  enclosing other _ := enclosing?_define ..
  binds other n hb := (binds_define_iff value).mpr (.inl hb)
  names other n _ hne hb := by
    rcases (binds_define_iff value).mp hb with hb | ⟨rfl, -⟩
    · exact hb
    · exact absurd rfl hne

lemma spares_redefine (hb : f.binds ref name = true) (value : Value) :
    Spares free f (f.define ref name value) where
  size := (spares_define value).size
  enclosing := (spares_define value).enclosing
  binds := (spares_define value).binds
  names other n _ _ hn := by
    rcases (binds_define_iff value).mp hn with hn | ⟨rfl, rfl, -⟩
    · exact hn
    · exact hb

/-- The frame binds the one name, and to the value unless the name may be assigned. -/
def BindsOnly (given : String → Prop) (f : Frames) (ref : FrameRef) (name : String) (value : Value) :
    Prop :=
  ∃ found enclosing, f.get? ref = some ⟨(∅ : Bindings Value).insert name found, enclosing⟩ ∧
    (¬ given name → found = value)

namespace BindsOnly

variable {given : String → Prop} {value : Value}

lemma lookup? (hb : BindsOnly given f ref name value) :
    ∃ found, f.lookup? ref name = some found ∧ (¬ given name → found = value) := by
  obtain ⟨found, enclosing, hget, hfound⟩ := hb
  exact ⟨found, by simp [Frames.lookup?, hget, Bindings.get?_insert], hfound⟩

lemma index_lt (hb : BindsOnly given f ref name value) : ref.index < f.all.size := by
  obtain ⟨found, enclosing, hget, -⟩ := hb
  simp [index_lt_iff, hget]

lemma push (hb : BindsOnly given f ref name value) (enclosing : FrameRef) (bindings : Bindings Value) :
    BindsOnly given (f.push enclosing bindings) ref name value := by
  have hne := ne_next_of_index_lt hb.index_lt
  obtain ⟨found, outer, hget, hfound⟩ := hb
  exact ⟨found, outer, by rw [get?_push, if_neg hne, hget], hfound⟩

lemma define_of_ne (hb : BindsOnly given f ref name value) (hne : other ≠ ref) (n : String)
    (assigned : Value) : BindsOnly given (f.define other n assigned) ref name value := by
  obtain ⟨found, outer, hget, hfound⟩ := hb
  exact ⟨found, outer, by rw [get?_define, if_neg hne, hget], hfound⟩

lemma redefine (hb : BindsOnly given f ref name value) {n : String} (hbinds : f.binds other n = true)
    (hn : given n) (assigned : Value) :
    BindsOnly given (f.define other n assigned) ref name value := by
  by_cases hne : other = ref
  · subst hne
    obtain ⟨found, outer, hget, -⟩ := hb
    have hname : n = name := by
      by_contra hne
      simp [Frames.binds, Frames.lookup?, hget, Bindings.get?_insert, hne] at hbinds
    subst hname
    refine ⟨assigned, outer, ?_, fun hnot => absurd hn hnot⟩
    have hinsert : ((∅ : Bindings Value).insert n found).insert n assigned =
        (∅ : Bindings Value).insert n assigned := by
      simp [Bindings.insert, Bindings.replaceIn, EmptyCollection.emptyCollection]
    simp only [get?_define, hget, if_true, Option.map_some, hinsert]
  · exact hb.define_of_ne hne n assigned

end BindsOnly

lemma bindsOnly_push (given : String → Prop) (enclosing : FrameRef) (name : String) (value : Value) :
    BindsOnly given (f.push enclosing ((∅ : Bindings Value).insert name value)) f.next name value :=
  ⟨value, some enclosing, by rw [get?_push, if_pos rfl], fun _ => rfl⟩

end Frames

/-- The function is well formed, and if it is an initializer, its frame was made for an instance. -/
structure Closure.Logged (given : String → Prop) (entries : List Entry) (closure : Closure) : Prop where
  formed : closure.decl.Formed given
  bound : closure.isInitializer = true →
    ∃ self, .makes closure.scope Scope.thisName (.instanceAt self) ∈ entries

lemma Closure.Logged.mono {given : String → Prop} {entries more : List Entry} {closure : Closure}
    (h : closure.Logged given entries) (hsub : entries ⊆ more) : closure.Logged given more where
  formed := h.formed
  bound hi := by
    obtain ⟨self, hself⟩ := h.bound hi
    exact ⟨self, hsub hself⟩

namespace Log

/-- What a frame is made for: the instance that a method is bound to, or the superclass of a class. -/
inductive Special : String → Value → Prop
  | this (self : InstanceRef) : Special Scope.thisName (.instanceAt self)
  | super (ref : ClassRef) : Special Scope.superName (.classAt ref)

/-- The machine is as the log tells. -/
structure Fits (given : String → Prop) (t : Log) : Prop where
  current : t.machine.current.index < t.machine.frames.all.size
  made : ∀ frame name value, .makes frame name value ∈ t.entries →
    frame ≠ t.machine.current ∧ t.machine.frames.BindsOnly given frame name value
  special : ∀ frame name value, .makes frame name value ∈ t.entries → Special name value
  functions : ∀ closure ∈ t.machine.functions, closure.Logged given t.entries
  methods : ∀ type ∈ t.machine.classes, ∀ name method, type.methods.get? name = some method →
    method.decl.Formed given

/-- An initializer has ended with its instance. -/
def Yields (given : String → Prop) (entries : List Entry) (closure : Closure) (self? : Option Value)
    (result : Value) : Prop :=
  ∃ self found, .makes closure.scope Scope.thisName (.instanceAt self) ∈ entries ∧
    self? = some found ∧ result = found ∧ (¬ given Scope.thisName → found = .instanceAt self)

/-- The machine is as the log tells, and so were those before it. -/
structure Sound (given : String → Prop) (t : Log) : Prop where
  fits : t.Fits given
  begun : ∀ before m behind, t.entries = before ++ .begins m :: behind → Fits given ⟨m, before⟩
  ended : ∀ before closure self? result behind,
    t.entries = before ++ .ends closure self? result :: behind →
      closure.isInitializer = true → Yields given before closure self? result

/-- What is so of a log later in a run. -/
structure Goes (free : Option FrameRef) (t t' : Log) : Prop where
  frames : Frames.Spares free t.machine.frames t'.machine.frames
  current : t'.machine.current = t.machine.current
  entries : t.entries ⊆ t'.entries
  made : ∀ frame name value, .makes frame name value ∈ t'.entries →
    .makes frame name value ∈ t.entries ∨ t.machine.frames.all.size ≤ frame.index

variable {given : String → Prop} {free : Option FrameRef} {t t' t'' : Log}

namespace Goes

lemma of_frames {machine : Machine} (hframes : Frames.Spares free t.machine.frames machine.frames)
    (hcurrent : machine.current = t.machine.current) : Goes free t ⟨machine, t.entries⟩ :=
  ⟨hframes, hcurrent, fun _ he => he, fun _ _ _ hm => .inl hm⟩

lemma refl (free : Option FrameRef) (t : Log) : Goes free t t :=
  of_frames (.refl free _) rfl

lemma of_none (h : Goes none t t') : Goes free t t' :=
  ⟨h.frames.of_none, h.current, h.entries, h.made⟩

lemma trans_of_frames {free' free'' : Option FrameRef} (h : Goes free' t t') (h' : Goes free'' t' t'')
    (hframes : Frames.Spares free t.machine.frames t''.machine.frames) : Goes free t t'' where
  frames := hframes
  current := h'.current.trans h.current
  entries := fun _ he => h'.entries (h.entries he)
  made frame name value hm := by
    rcases h'.made frame name value hm with hm | hle
    · exact h.made frame name value hm
    · exact .inr (Nat.le_trans h.frames.size hle)

lemma trans (h : Goes free t t') (h' : Goes free t' t'') : Goes free t t'' :=
  h.trans_of_frames h' (h.frames.trans h'.frames)

end Goes

namespace Fits

lemma of_eq (h : t.Fits given) {machine : Machine} (hframes : machine.frames = t.machine.frames)
    (hfunctions : machine.functions = t.machine.functions)
    (hclasses : machine.classes = t.machine.classes) (hcurrent : machine.current = t.machine.current) :
    Fits given ⟨machine, t.entries⟩ := by
  refine ⟨?_, ?_, h.special, ?_, ?_⟩ <;> simp only [hframes, hfunctions, hclasses, hcurrent]
  · exact h.current
  · exact h.made
  · exact h.functions
  · exact h.methods

lemma newFrame (h : t.Fits given) (enclosing : FrameRef) (bindings : Bindings Value) :
    Fits given ⟨{ t.machine with frames := t.machine.frames.push enclosing bindings }, t.entries⟩ where
  current := Nat.lt_of_lt_of_le h.current (by simp [Frames.push])
  made frame name value hm := by
    obtain ⟨hne, honly⟩ := h.made frame name value hm
    exact ⟨hne, honly.push enclosing bindings⟩
  special := h.special
  functions := h.functions
  methods := h.methods

/-- A frame that is new is not among those that were made for one name. -/
lemma enter (h : t.Fits given) {frame : FrameRef} (hlt : frame.index < t.machine.frames.all.size)
    (hnew : ∀ name value, .makes frame name value ∉ t.entries) :
    Fits given ⟨{ t.machine with current := frame }, t.entries⟩ where
  current := hlt
  made other name value hm := by
    refine ⟨?_, (h.made other name value hm).2⟩
    rintro rfl
    exact hnew name value hm
  special := h.special
  functions := h.functions
  methods := h.methods

lemma define (h : t.Fits given) (name : String) (value : Value) :
    Fits given ⟨{ t.machine with
      frames := t.machine.frames.define t.machine.current name value }, t.entries⟩ where
  current := by simpa using h.current
  made frame n v hm := by
    obtain ⟨hne, honly⟩ := h.made frame n v hm
    exact ⟨hne, honly.define_of_ne hne.symm name value⟩
  special := h.special
  functions := h.functions
  methods := h.methods

lemma redefine (h : t.Fits given) {frame : FrameRef} {name : String}
    (hb : t.machine.frames.binds frame name = true) (hn : given name) (value : Value) :
    Fits given ⟨{ t.machine with frames := t.machine.frames.define frame name value }, t.entries⟩ where
  current := by simpa using h.current
  made other n v hm := by
    obtain ⟨hne, honly⟩ := h.made other n v hm
    exact ⟨hne, honly.redefine hb hn value⟩
  special := h.special
  functions := h.functions
  methods := h.methods

lemma newFunction (h : t.Fits given) {closure : Closure} (hc : closure.Logged given t.entries) :
    Fits given ⟨{ t.machine with functions := t.machine.functions.push closure }, t.entries⟩ where
  current := h.current
  made := h.made
  special := h.special
  functions other ho := by
    rcases Array.mem_push.mp ho with ho | rfl
    · exact h.functions other ho
    · exact hc
  methods := h.methods

lemma newClass (h : t.Fits given) {type : Class}
    (hmethods : ∀ name method, type.methods.get? name = some method → method.decl.Formed given) :
    Fits given ⟨{ t.machine with classes := t.machine.classes.push type }, t.entries⟩ where
  current := h.current
  made := h.made
  special := h.special
  functions := h.functions
  methods other ho := by
    rcases Array.mem_push.mp ho with ho | rfl
    · exact h.methods other ho
    · exact hmethods

/-- What is logged besides frames does not matter to the machine. -/
lemma append (h : t.Fits given) {entry : Entry} (he : ∀ frame name value, entry ≠ .makes frame name value) :
    Fits given ⟨t.machine, t.entries ++ [entry]⟩ where
  current := h.current
  made frame name value hm := by
    rcases List.mem_append.mp hm with hm | hm
    · exact h.made frame name value hm
    · exact absurd (List.mem_singleton.mp hm).symm (he frame name value)
  special frame name value hm := by
    rcases List.mem_append.mp hm with hm | hm
    · exact h.special frame name value hm
    · exact absurd (List.mem_singleton.mp hm).symm (he frame name value)
  functions closure hc := (h.functions closure hc).mono (List.subset_append_left ..)
  methods := h.methods

lemma makes (h : t.Fits given) (enclosing : FrameRef) {name : String} {value : Value}
    (hs : Special name value) :
    Fits given ⟨{ t.machine with
      frames := t.machine.frames.push enclosing ((∅ : Bindings Value).insert name value) },
      t.entries ++ [.makes t.machine.frames.next name value]⟩ where
  current := (h.newFrame enclosing _).current
  made frame n v hm := by
    rcases List.mem_append.mp hm with hm | hm
    · exact (h.newFrame enclosing _).made frame n v hm
    · obtain ⟨rfl, rfl, rfl⟩ := Entry.makes.inj (List.mem_singleton.mp hm)
      exact ⟨(Frames.ne_next_of_index_lt h.current).symm, Frames.bindsOnly_push given enclosing n v⟩
  special frame n v hm := by
    rcases List.mem_append.mp hm with hm | hm
    · exact h.special frame n v hm
    · obtain ⟨-, rfl, rfl⟩ := Entry.makes.inj (List.mem_singleton.mp hm)
      exact hs
  functions closure hc := (h.functions closure hc).mono (List.subset_append_left ..)
  methods := h.methods

end Fits

lemma split_append_one {entries before behind : List Entry} {last entry : Entry}
    (h : entries ++ [last] = before ++ entry :: behind) :
    before = entries ∧ entry = last ∨ ∃ between, entries = before ++ entry :: between := by
  rcases List.append_eq_append_iff.mp h with ⟨between, rfl, hone⟩ | ⟨between, hentries, hone⟩
  · cases between with
    | nil => exact .inl ⟨List.append_nil _, (List.cons.inj hone).1.symm⟩
    | cons other between => simp at hone
  · cases between with
    | nil => exact .inl ⟨by simpa using hentries.symm, (List.cons.inj hone).1⟩
    | cons other between =>
      obtain ⟨rfl, -⟩ := List.cons.inj hone
      exact .inr ⟨between, hentries⟩

namespace Sound

lemma setMachine (h : t.Sound given) {machine : Machine} (hf : Fits given ⟨machine, t.entries⟩) :
    Sound given ⟨machine, t.entries⟩ :=
  ⟨hf, h.begun, h.ended⟩

lemma append (h : t.Sound given) {machine : Machine} {entry : Entry}
    (hf : Fits given ⟨machine, t.entries ++ [entry]⟩)
    (hb : ∀ m, entry = .begins m → Fits given ⟨m, t.entries⟩)
    (he : ∀ closure self? result, entry = .ends closure self? result →
      closure.isInitializer = true → Yields given t.entries closure self? result) :
    Sound given ⟨machine, t.entries ++ [entry]⟩ where
  fits := hf
  begun before m behind heq := by
    rcases split_append_one heq with ⟨rfl, hentry⟩ | ⟨between, hentries⟩
    · exact hb m hentry.symm
    · exact h.begun before m between hentries
  ended before closure self? result behind heq := by
    rcases split_append_one heq with ⟨rfl, hentry⟩ | ⟨between, hentries⟩
    · exact he closure self? result hentry.symm
    · exact h.ended before closure self? result between hentries

/-- A log was sound up to any place where something was about to be run. -/
lemma of_begins (h : t.Sound given) {before behind : List Entry} {m : Machine}
    (heq : t.entries = before ++ .begins m :: behind) : Sound given ⟨m, before⟩ where
  fits := h.begun before m behind heq
  begun front m' between hfront := by
    have hfront : before = front ++ .begins m' :: between := hfront
    exact h.begun front m' (between ++ .begins m :: behind) (by simp [heq, hfront])
  ended front closure self? result between hfront := by
    have hfront : before = front ++ .ends closure self? result :: between := hfront
    exact h.ended front closure self? result (between ++ .begins m :: behind) (by simp [heq, hfront])

lemma note (h : t.Sound given) : Sound given ⟨t.machine, t.entries ++ [.begins t.machine]⟩ := by
  refine h.append (h.fits.append (by simp)) ?_ (by simp)
  rintro m ⟨⟩
  exact h.fits

end Sound

end Log

end Lox
