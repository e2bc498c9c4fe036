import Lox.Proofs.Scope.Declarations
import Lox.Proofs.Watch.Calls

/-! Where the names come from that are bound in a watched run: each is one that resolution found
declared, as deep as its frame is, and of two names in one frame the later one was declared where the
earlier was in scope. -/

namespace Lox

namespace Frames

variable {f g : Frames} {free : Option FrameRef} {ref : FrameRef}

/-- A frame is made after the one around it. -/
def Ordered (f : Frames) : Prop :=
  ∀ ref outer, f.enclosing? ref = some outer → outer.index < ref.index

/-- The frames are there, and only those for a scope with `this` or `super` bind it. -/
def SpecialInPlace (f : Frames) (scopes : List Scope) (frames : List FrameRef) : Prop :=
  ∀ entry ∈ scopes.zip frames, entry.2.index < f.all.size ∧
    ∀ name, ¬ Scope.IsPlain name → f.binds entry.2 name = true → entry.1.contains name = true

lemma Ordered.push (h : f.Ordered) {enclosing : FrameRef} (hlt : enclosing.index < f.all.size)
    (bindings : Bindings Value) : (f.push enclosing bindings).Ordered := by
  intro ref outer hr
  rw [enclosing?_push] at hr
  split at hr
  · rename_i hnext
    rw [hnext, ← Option.some.inj hr]
    exact hlt
  · exact h ref outer hr

lemma Ordered.define (h : f.Ordered) (name : String) (value : Value) :
    (f.define ref name value).Ordered := by
  intro other outer ho
  rw [enclosing?_define] at ho
  exact h other outer ho

lemma Follows.ancestor? (hf : Follows free f g) (ho : f.Ordered) (hr : ref.index < f.all.size)
    (distance : Nat) : g.ancestor? ref distance = f.ancestor? ref distance := by
  induction distance generalizing ref with
  | zero => rfl
  | succ distance ih =>
    rw [Frames.ancestor?, Frames.ancestor?, hf.enclosing ref hr]
    cases houter : f.enclosing? ref with
    | none => rfl
    | some outer => exact ih (Nat.lt_trans (ho ref outer houter) hr)

lemma Follows.specialInPlace (hf : Follows free f g) {scopes : List Scope} {frames : List FrameRef}
    (h : f.SpecialInPlace scopes frames) : g.SpecialInPlace scopes frames := by
  intro entry he
  obtain ⟨hlt, hspecial⟩ := h entry he
  refine ⟨Nat.lt_of_lt_of_le hlt hf.size, fun name hn hb => hspecial name hn ?_⟩
  rwa [Frames.binds, ← hf.special _ _ hlt hn]

lemma SpecialInPlace.cons {scope : Scope} {scopes : List Scope} {frames : List FrameRef}
    (h : f.SpecialInPlace scopes frames) (hlt : ref.index < f.all.size)
    (hspecial : ∀ name, ¬ Scope.IsPlain name → f.binds ref name = true → scope.contains name = true) :
    f.SpecialInPlace (scope :: scopes) (ref :: frames) :=
  List.forall_mem_cons.mpr ⟨⟨hlt, hspecial⟩, h⟩

lemma SpecialInPlace.head {scope inner : Scope} {scopes : List Scope} {frames : List FrameRef}
    (h : f.SpecialInPlace (scope :: scopes) frames)
    (hinner : ∀ name, scope.contains name = true → inner.contains name = true) :
    f.SpecialInPlace (inner :: scopes) frames := by
  cases frames with
  | nil => simp [SpecialInPlace]
  | cons frame frames =>
    obtain ⟨⟨hlt, hspecial⟩, hrest⟩ := List.forall_mem_cons.mp h
    exact List.forall_mem_cons.mpr ⟨⟨hlt, fun name hn hb => hinner name (hspecial name hn hb)⟩, hrest⟩

lemma SpecialInPlace.declare {name : Name} {scopes : List Scope} {frames : List FrameRef}
    (h : f.SpecialInPlace scopes frames) : f.SpecialInPlace (Scope.declare name scopes).2 frames := by
  cases scopes with
  | nil => exact h
  | cons scope outer =>
    exact SpecialInPlace.head h fun other hother => by simp [Bindings.contains_insert, hother]

lemma SpecialInPlace.introduce {name : Name} {scopes : List Scope} {frames : List FrameRef}
    (h : f.SpecialInPlace scopes frames) : f.SpecialInPlace (Scope.introduce name scopes).2 frames := by
  cases scopes with
  | nil => exact h
  | cons scope outer =>
    exact SpecialInPlace.head h fun other hother => by simp [Bindings.contains_insert, hother]

lemma SpecialInPlace.introduceAll {names : List Name} {scopes : List Scope} {frames : List FrameRef}
    (h : f.SpecialInPlace scopes frames) :
    f.SpecialInPlace (Scope.introduceAll names scopes).2 frames := by
  induction names generalizing scopes with
  | nil => exact h
  | cons name names ih => exact ih h.introduce

end Frames

lemma Frames.SpecialInPlace.after {f : Frames} {context : Context} {scopes : List Scope}
    {frames : List FrameRef} (h : f.SpecialInPlace scopes frames) (stated : Stmt) :
    f.SpecialInPlace (stated.resolve context scopes).2 frames := by
  cases stated with
  | expression | print | block | ret => exact h
  | varDecl => exact h.introduce
  | functionDecl | classDecl => exact h.introduce
  | ifElse condition thenBranch elseBranch =>
    cases elseBranch with
    | none => exact SpecialInPlace.after h thenBranch
    | some elseBranch => exact SpecialInPlace.after (SpecialInPlace.after h thenBranch) elseBranch
  | whileLoop condition body => exact SpecialInPlace.after h body

variable {programs : List Program}

lemma Laid.index_lt {f : Frames} {owner : EnclosingClass} {scopes : List Scope}
    {frames : List FrameRef} (h : Laid f owner scopes frames)
    (hsize : FrameRef.globals.index < f.all.size) :
    (frames.headD .globals).index < f.all.size := by
  cases h with
  | top => exact hsize
  | block _ henclosing _ _ | method _ henclosing _ | submethod _ _ _ henclosing _ =>
    exact Frames.index_lt_of_enclosing? henclosing

lemma ClassSite.Stands.index_lt {f : Frames} {type : ClassSite} (h : type.Stands f)
    (hsize : FrameRef.globals.index < f.all.size) :
    (type.frames.headD .globals).index < f.all.size := by
  obtain ⟨site, _ | frame⟩ := type
  · exact h.laid.index_lt hsize
  · exact Frames.index_lt_of_enclosing? (h.super frame rfl).1

def Declares (programs : List Program) (d : Declaration) : Prop :=
  ∃ program ∈ programs, d ∈ Program.declarations program

/-- Resolution found a name declared where another was in the innermost scope. -/
def Beside (programs : List Program) (name other : String) : Prop :=
  ∃ decl scope outer, Accepted programs (.declare decl (scope :: outer)) ∧ decl.text = name ∧
    scope.contains other = true

/-- A name is one that resolution found declared, in as many scopes as there are frames outward from
the one that binds it; or it is the one of the clock. -/
def Stems (programs : List Program) (f : Frames) (ref : FrameRef) (name : String) : Prop :=
  (ref = .globals ∧ name = Machine.clockName) ∨
    ∃ decl scopes, Accepted programs (.declare decl scopes) ∧ decl.text = name ∧
      f.ancestor? ref scopes.length = some .globals

lemma FunctionDecl.mem_events_of_params {decl : FunctionDecl} {context : Context}
    {scopes : List Scope} {event : Event}
    (h : event ∈ Scope.introductions decl.params (∅ :: scopes)) :
    event ∈ decl.events context scopes := by
  cases decl
  exact List.mem_append_left _ h

lemma FunctionDecl.mem_declarations_of_body {decl : FunctionDecl} {d : Declaration}
    (h : d ∈ Stmt.declarationsAll true decl.body) : d ∈ decl.declarations := by
  cases decl
  exact List.mem_append_right _ h

lemma FunctionDecl.mem_declarationsAll {methods : List FunctionDecl} {method : FunctionDecl}
    (hm : method ∈ methods) {d : Declaration} (h : d ∈ method.declarations) :
    d ∈ FunctionDecl.declarationsAll methods := by
  induction methods with
  | nil => simp at hm
  | cons first rest ih =>
    rcases List.mem_cons.mp hm with rfl | hm
    · exact List.mem_append_left _ h
    · exact List.mem_append_right _ (ih hm)

/-- Of two parameters the later one is declared where the earlier is in scope. -/
lemma Scope.introductions_beside {names : List Name} {scope : Scope} {outer : List Scope}
    (hv : ∀ event ∈ introductions names (scope :: outer), Accepted programs event) :
    (∀ one ∈ names, ∀ other, scope.contains other = true → Beside programs one.text other) ∧
      ∀ one ∈ names, ∀ other ∈ names, one.text ≠ other.text →
        Beside programs one.text other.text ∨ Beside programs other.text one.text := by
  induction names generalizing scope with
  | nil => simp
  | cons name names ih =>
    obtain ⟨hname, hnames⟩ := List.forall_mem_cons.mp hv
    obtain ⟨hearlier, hboth⟩ := ih hnames
    have hinside (other : String) (hother : scope.contains other = true ∨ other = name.text) :
        ((scope.insert name.text .declared).insert name.text .defined).contains other = true := by
      rw [Bindings.contains_insert, Bindings.contains_insert]
      rcases hother with hother | rfl <;> simp [*]
    refine ⟨fun one hone other hother => ?_, fun one hone other hother hne => ?_⟩
    · rcases List.mem_cons.mp hone with rfl | hone
      · exact ⟨one, scope, outer, hname, rfl, hother⟩
      · exact hearlier one hone other (hinside other (.inl hother))
    · rcases List.mem_cons.mp hone with hfirst | hone <;>
        rcases List.mem_cons.mp hother with hfirst' | hother
      · exact absurd (congrArg Name.text (hfirst.trans hfirst'.symm)) hne
      · exact .inr (hearlier other hother _ (hinside _ (.inr (congrArg Name.text hfirst))))
      · exact .inl (hearlier one hone _ (hinside _ (.inr (congrArg Name.text hfirst'))))
      · exact hboth one hone other hother hne

lemma Scope.mem_introductions {names : List Name} {name : Name} (hname : name ∈ names)
    (scopes : List Scope) :
    ∃ inside, .declare name inside ∈ introductions names scopes ∧ inside.length = scopes.length := by
  induction names generalizing scopes with
  | nil => simp at hname
  | cons first names ih =>
    rcases List.mem_cons.mp hname with rfl | hname
    · exact ⟨scopes, List.mem_cons_self .., rfl⟩
    · obtain ⟨inside, hmem, hlength⟩ := ih hname (introduce first scopes).2
      refine ⟨inside, List.mem_cons_of_mem _ hmem, hlength.trans ?_⟩
      cases scopes <;> rfl

lemma Machine.exists_of_methodAmong? {m : Machine} {name : String} {count : Nat} {ref : ClassRef}
    {method : Closure} (h : m.methodAmong? name count ref = some method) :
    ∃ type ∈ m.classes, type.methods.get? name = some method := by
  induction count generalizing ref with
  | zero => simp [methodAmong?] at h
  | succ count ih =>
    obtain ⟨type, htype, h⟩ := Option.bind_eq_some_iff.mp h
    cases hown : type.methods.get? name with
    | some own =>
      obtain rfl : own = method := by simpa [hown] using h
      exact ⟨type, Array.mem_of_getElem? htype, hown⟩
    | none =>
      rw [hown, Option.none_or] at h
      obtain ⟨parent, -, h⟩ := Option.bind_eq_some_iff.mp h
      exact ih h

/-- What is so of the names in a watched run. -/
structure Named (programs : List Program) (w : Watch) : Prop where
  ordered : w.machine.frames.Ordered
  stems : ∀ ref name, Scope.IsPlain name → w.machine.frames.binds ref name = true →
    Stems programs w.machine.frames ref name
  beside : ∀ ref one other, ref ≠ .globals → Scope.IsPlain one → Scope.IsPlain other → one ≠ other →
    w.machine.frames.binds ref one = true → w.machine.frames.binds ref other = true →
    Beside programs one other ∨ Beside programs other one
  functionSites : ∀ site ∈ w.journal.functions, w.machine.frames.SpecialInPlace site.scopes site.frames
  classSites : ∀ type ∈ w.journal.classes, w.machine.frames.SpecialInPlace type.scopes type.frames
  functions : ∀ closure ∈ w.machine.functions, ∀ d ∈ closure.decl.declarations, Declares programs d
  classes : ∀ type ∈ w.machine.classes, ∀ name method, type.methods.get? name = some method →
    ∀ d ∈ method.decl.declarations, Declares programs d

namespace Named

variable {free : Option FrameRef} {w : Watch} {m : Machine}

lemma follows (h : Named programs w) (hf : Frames.Follows free w.machine.frames m.frames)
    (hfunctions : m.functions = w.machine.functions) (hclasses : m.classes = w.machine.classes)
    (ho : m.frames.Ordered)
    (hs : ∀ ref name, Scope.IsPlain name → m.frames.binds ref name = true →
      w.machine.frames.binds ref name = false → Stems programs m.frames ref name)
    (hb : ∀ ref one other, ref ≠ .globals → Scope.IsPlain one → Scope.IsPlain other → one ≠ other →
      m.frames.binds ref one = true → m.frames.binds ref other = true →
      w.machine.frames.binds ref one = false → Beside programs one other ∨ Beside programs other one) :
    Named programs { w with machine := m } where
  ordered := ho
  stems ref name hn hname := by
    by_cases hold : w.machine.frames.binds ref name = true
    · refine (h.stems ref name hn hold).imp_right ?_
      rintro ⟨decl, scopes, hv, hdecl, hglobal⟩
      refine ⟨decl, scopes, hv, hdecl, ?_⟩
      rw [hf.ancestor? h.ordered (Frames.index_lt_of_binds hold), hglobal]
    · exact hs ref name hn hname (Bool.not_eq_true _ ▸ hold)
  beside ref one other hr hone hother hne hbone hbother := by
    by_cases hold : w.machine.frames.binds ref one = true
    · by_cases hold' : w.machine.frames.binds ref other = true
      · exact h.beside ref one other hr hone hother hne hold hold'
      · exact (hb ref other one hr hother hone hne.symm hbother hbone
          (Bool.not_eq_true _ ▸ hold')).symm
    · exact hb ref one other hr hone hother hne hbone hbother (Bool.not_eq_true _ ▸ hold)
  functionSites site hsite := hf.specialInPlace (h.functionSites site hsite)
  classSites type htype := hf.specialInPlace (h.classSites type htype)
  functions := by
    rw [hfunctions]
    exact h.functions
  classes := by
    rw [hclasses]
    exact h.classes

lemma same (h : Named programs w) (hframes : m.frames = w.machine.frames)
    (hfunctions : m.functions = w.machine.functions) (hclasses : m.classes = w.machine.classes) :
    Named programs { w with machine := m } := by
  have hf : Frames.Follows none w.machine.frames m.frames := by
    rw [hframes]
    exact .refl ..
  refine h.follows hf hfunctions hclasses (by rw [hframes]; exact h.ordered) ?_ ?_
  · intro ref name _ hb hnot
    rw [hframes, hnot] at hb
    simp at hb
  · intro ref one other _ _ _ _ hb _ hnot
    rw [hframes, hnot] at hb
    simp at hb

lemma setCurrent (h : Named programs w) (frame : FrameRef) :
    Named programs { w with machine.current := frame } :=
  h.same rfl rfl rfl

lemma print (h : Named programs w) (text : String) (line : Nat) :
    Named programs { w with machine := (outcome (Run.print text line) w.machine).2 } := by
  have hprint : (outcome (Run.print text line) w.machine).2 =
      { w.machine with output := w.machine.output.write (text ++ "\n").toUTF8 } := by
    change (outcome (if !w.machine.output.fits (text ++ "\n").toUTF8 then
      Run.fail .outputFull line else pure ()) _).2 = _
    split <;> rfl
  rw [hprint]
  exact h.same rfl rfl rfl

lemma note (h : Named programs w) (moments assignments : List Moment) :
    Named programs { w with journal := { w.journal with moments, assignments } } :=
  ⟨h.ordered, h.stems, h.beside, h.functionSites, h.classSites, h.functions, h.classes⟩

lemma redefine (h : Named programs w) {ref : FrameRef} {name : String} (hn : Scope.IsPlain name)
    (hb : w.machine.frames.binds ref name = true) (value : Value) :
    Named programs { w with machine.frames := w.machine.frames.define ref name value } := by
  have hold {other : FrameRef} {n : String}
      (hother : (w.machine.frames.define ref name value).binds other n = true)
      (hnot : w.machine.frames.binds other n = false) : False := by
    rcases (Frames.binds_define_iff value).mp hother with hother | ⟨rfl, rfl, -⟩
    · simp [hnot] at hother
    · simp [hnot] at hb
  have hfollows : Frames.Follows none w.machine.frames (w.machine.frames.define ref name value) :=
    Frames.follows_redefine hn hb value
  exact h.follows hfollows rfl rfl (h.ordered.define _ _)
    (fun _ _ _ hother hnot => (hold hother hnot).elim)
    (fun _ _ _ _ _ _ _ hother _ hnot => (hold hother hnot).elim)

lemma define (h : Named programs w) {ref : FrameRef} {name : Name} {scopes : List Scope}
    (hn : Scope.IsPlain name.text) (hv : Accepted programs (.declare name scopes))
    (hglobal : w.machine.frames.ancestor? ref scopes.length = some .globals)
    (hbeside : ref ≠ .globals → ∀ other, w.machine.frames.binds ref other = true →
      Beside programs name.text other) (value : Value) :
    Named programs { w with machine.frames := w.machine.frames.define ref name.text value } := by
  have hnew {other : FrameRef} {n : String}
      (hother : (w.machine.frames.define ref name.text value).binds other n = true)
      (hnot : w.machine.frames.binds other n = false) : ref = other ∧ n = name.text := by
    rcases (Frames.binds_define_iff value).mp hother with hother | ⟨rfl, rfl, -⟩
    · simp [hnot] at hother
    · exact ⟨rfl, rfl⟩
  refine h.follows (Frames.follows_define hn value) rfl rfl (h.ordered.define _ _) ?_ ?_
  · rintro other n - hother hnot
    obtain ⟨rfl, rfl⟩ := hnew hother hnot
    refine .inr ⟨name, scopes, hv, rfl, ?_⟩
    rw [Frames.ancestor?_define]
    exact hglobal
  · rintro other one third hr - - hne hone hthird hnot
    obtain ⟨rfl, rfl⟩ := hnew hone hnot
    refine .inl (hbeside hr third ?_)
    rcases (Frames.binds_define_iff value).mp hthird with hthird | ⟨-, rfl, -⟩
    · exact hthird
    · exact absurd rfl hne

lemma push (h : Named programs w) {enclosing : FrameRef}
    (hlt : enclosing.index < w.machine.frames.all.size) {bindings : Bindings Value}
    (hs : ∀ name, Scope.IsPlain name → bindings.contains name = true → ∃ decl scopes,
      Accepted programs (.declare decl scopes) ∧ decl.text = name ∧
        (w.machine.frames.push enclosing bindings).ancestor? w.machine.frames.next scopes.length =
          some .globals)
    (hb : ∀ one other, one ≠ other → bindings.contains one = true → bindings.contains other = true →
      Beside programs one other ∨ Beside programs other one) :
    Named programs { w with machine.frames := w.machine.frames.push enclosing bindings } := by
  have hnew {ref : FrameRef} {name : String}
      (hname : (w.machine.frames.push enclosing bindings).binds ref name = true)
      (hnot : w.machine.frames.binds ref name = false) : ref = w.machine.frames.next := by
    by_contra hne
    rw [Frames.binds, Frames.lookup?_push, if_neg hne, ← Frames.binds, hnot] at hname
    simp at hname
  have hnext {name : String} :
      (w.machine.frames.push enclosing bindings).binds w.machine.frames.next name =
        bindings.contains name := by
    rw [Frames.binds, Frames.lookup?_push, if_pos rfl, Bindings.contains]
  have hfollows : Frames.Follows none w.machine.frames (w.machine.frames.push enclosing bindings) :=
    Frames.follows_push enclosing bindings
  refine h.follows hfollows rfl rfl (h.ordered.push hlt bindings) ?_ ?_
  · intro ref name hn hname hnot
    obtain rfl := hnew hname hnot
    exact .inr (hs name hn (hnext ▸ hname))
  · intro ref one other _ _ _ hne hone hother hnot
    obtain rfl := hnew hone hnot
    exact hb one other hne (hnext ▸ hone) (hnext ▸ hother)

lemma pushSpecial (h : Named programs w) {enclosing : FrameRef}
    (hlt : enclosing.index < w.machine.frames.all.size) {special : String}
    (hspecial : ¬ Scope.IsPlain special) (value : Value) :
    Named programs
      { w with
        machine.frames :=
          w.machine.frames.push enclosing ((∅ : Bindings Value).insert special value) } := by
  have honly {name : String}
      (hname : ((∅ : Bindings Value).insert special value).contains name = true) :
      name = special := by
    simpa [Bindings.contains_insert, Bindings.contains] using hname
  refine h.push hlt (fun name hn hname => ?_) fun one other hne hone hother => ?_
  · rw [honly hname] at hn
    exact absurd hn hspecial
  · exact absurd ((honly hone).trans (honly hother).symm) hne

lemma pushEmpty (h : Named programs w) {enclosing : FrameRef}
    (hlt : enclosing.index < w.machine.frames.all.size) :
    Named programs { w with machine.frames := w.machine.frames.push enclosing ∅ } :=
  h.push hlt (by simp [Bindings.contains]) (by simp [Bindings.contains])

lemma pushCall (h : Named programs w) (hs : Sound programs w) {closure : Closure} {site : Site}
    (hc : closure.Fits programs w.machine.frames site) (arguments : List Value) :
    Named programs
      { w with
        machine.frames := w.machine.frames.push closure.scope
          ((∅ : Bindings Value).insertAll ((closure.decl.params.map Name.text).zip arguments)) } := by
  have hv : ∀ event ∈ Scope.introductions closure.decl.params (∅ :: site.scopes),
      Accepted programs event :=
    fun event he => hc.accepted event (FunctionDecl.mem_events_of_params he)
  have hlt : closure.scope.index < w.machine.frames.all.size := by
    rw [hc.scope]
    exact hc.laid.index_lt hs.nonempty
  have hmem {name : String} (hname : ((∅ : Bindings Value).insertAll
      ((closure.decl.params.map Name.text).zip arguments)).contains name = true) :
      ∃ param ∈ closure.decl.params, param.text = name := by
    rcases (Bindings.contains_insertAll ..).mp hname with hname | hname
    · simp [Bindings.contains] at hname
    · obtain ⟨entry, he, rfl⟩ := List.mem_map.mp hname
      exact List.mem_map.mp (List.of_mem_zip he).1
  have hfollows : Frames.Follows none w.machine.frames (w.machine.frames.push closure.scope
      ((∅ : Bindings Value).insertAll ((closure.decl.params.map Name.text).zip arguments))) :=
    Frames.follows_push ..
  refine h.push hlt (fun name _ hname => ?_) fun one other hne hone hother => ?_
  · obtain ⟨param, hparam, rfl⟩ := hmem hname
    obtain ⟨inside, hdeclare, hlength⟩ := Scope.mem_introductions hparam (∅ :: site.scopes)
    refine ⟨param, inside, hv _ hdeclare, rfl, ?_⟩
    have hroot := (hfollows.enclosing .globals hs.nonempty).trans hs.root
    have houtward := (hc.laid.follows hfollows).ancestor?_eq hroot site.scopes.length
    rw [← hc.scope, ← hc.laid.length_eq, List.getElem?_append_right (Nat.le_refl _)] at houtward
    rw [hlength, List.length_cons, Frames.ancestor?, Frames.enclosing?_push, if_pos rfl,
      Option.bind_some, ← hc.laid.length_eq, houtward]
    simp
  · obtain ⟨param, hparam, rfl⟩ := hmem hone
    obtain ⟨param', hparam', rfl⟩ := hmem hother
    exact (Scope.introductions_beside hv).2 param hparam param' hparam' hne

lemma newFunction (h : Named programs w) {closure : Closure} {site : Site}
    (hsite : w.machine.frames.SpecialInPlace site.scopes site.frames)
    (hd : ∀ d ∈ closure.decl.declarations, Declares programs d) :
    Named programs
      { machine := { w.machine with functions := w.machine.functions.push closure }
        journal := { w.journal with functions := w.journal.functions.push site } } :=
  { h with
    functionSites := by
      intro other hother
      rcases Array.mem_push.mp hother with hother | rfl
      · exact h.functionSites other hother
      · exact hsite
    functions := by
      intro other hother
      rcases Array.mem_push.mp hother with hother | rfl
      · exact h.functions other hother
      · exact hd }

lemma newClass (h : Named programs w) {type : Class} {site : ClassSite}
    (hsite : w.machine.frames.SpecialInPlace site.scopes site.frames)
    (hd : ∀ name method, type.methods.get? name = some method →
      ∀ d ∈ method.decl.declarations, Declares programs d) :
    Named programs
      { machine := { w.machine with classes := w.machine.classes.push type }
        journal := { w.journal with classes := w.journal.classes.push site } } :=
  { h with
    classSites := by
      intro other hother
      rcases Array.mem_push.mp hother with hother | rfl
      · exact h.classSites other hother
      · exact hsite
    classes := by
      intro other hother
      rcases Array.mem_push.mp hother with hother | rfl
      · exact h.classes other hother
      · exact hd }

lemma functionSite (h : Named programs w) (callee : Value) :
    w.machine.frames.SpecialInPlace (w.functionSite callee).scopes (w.functionSite callee).frames := by
  cases callee with
  | functionAt ref =>
    rw [Watch.functionSite]
    cases hsite : w.journal.functions[ref.index]? with
    | none => simp [Site.top, Frames.SpecialInPlace]
    | some site => exact h.functionSites site (Array.mem_of_getElem? hsite)
  | nil | boolean | number | text | native | classAt | instanceAt =>
    simp [Watch.functionSite, Site.top, Frames.SpecialInPlace]

lemma methodSite (h : Named programs w) (ref : ClassRef) (name : String) :
    w.machine.frames.SpecialInPlace (w.methodSite ref name).scopes (w.methodSite ref name).frames := by
  rw [Watch.methodSite]
  cases hsite : (w.machine.ownerAmong? name (ref.index + 1) ref).bind
      fun owner => w.journal.classes[owner.index]? with
  | none => simp [ClassSite.top, ClassSite.scopes, Site.top, Frames.SpecialInPlace]
  | some type =>
    obtain ⟨owner, -, htype⟩ := Option.bind_eq_some_iff.mp hsite
    exact h.classSites type (Array.mem_of_getElem? htype)

lemma declares_function (h : Named programs w) {ref : FunctionRef} {closure : Closure}
    (hc : w.machine.function? ref = some closure) :
    ∀ d ∈ closure.decl.declarations, Declares programs d :=
  h.functions closure (Array.mem_of_getElem? hc)

lemma declares_method (h : Named programs w) {ref : ClassRef} {name : String} {method : Closure}
    (hm : w.machine.method? ref name = some method) :
    ∀ d ∈ method.decl.declarations, Declares programs d := by
  obtain ⟨type, htype, hmethod⟩ := Machine.exists_of_methodAmong? hm
  exact h.classes type htype name method hmethod

end Named

end Lox
