import Lox.Proofs.Machine.Steps
import Lox.Proofs.Watch.Places

/-! What resolution and evaluation agree on at the moments of a watched run: how deep a place is, and
in which frame a name is that resolution has found. -/

namespace Lox

/-- Resolving one of the programs gives rise to the event. -/
def Accepted (programs : List Program) (event : Event) : Prop :=
  ∃ program ∈ programs, event ∈ Program.events program

/-- The programs break no rules, and their names have entries in the table. -/
structure Ruled (programs : List Program) (table : BindingTable) : Prop where
  clean : ∀ event, Accepted programs event → event.findings.violations = []
  entries : ∀ v, Accepted programs (.visit v) → v.Agrees table

def Moment.visit (moment : Moment) : Visit :=
  ⟨moment.node, moment.site.context, moment.site.scopes⟩

def Expr.isAssign : Expr → Bool
  | .assign .. => true
  | _ => false

/-- An expression that is being evaluated: resolution came to it in as many scopes as there are frames
outward, besides the global one, and a name with an entry is bound in the frame for the scope in
which resolution found it. -/
structure Moment.Agrees (programs : List Program) (moment : Moment) : Prop where
  visited : Accepted programs (.visit moment.visit)
  depth : moment.site.frames.length = moment.site.scopes.length
  outward : ∀ distance, moment.machine.frames.ancestor? moment.machine.current distance =
    (moment.site.frames ++ [.globals])[distance]?
  found : ∀ i name distance, moment.node.use? = some (i, name) →
    moment.machine.table[i]? = some distance →
    moment.site.scopes.findIdx? (·.contains name) = some distance
  bound : ∀ i name distance, moment.node.use? = some (i, name) → moment.node.isAssign = false →
    moment.machine.table[i]? = some distance →
    ∃ frame, moment.site.frames[distance]? = some frame ∧
      moment.machine.frames.ancestor? moment.machine.current distance = some frame ∧
      moment.machine.frames.binds frame name = true
  read : ∀ target, moment.node = .read target ∨ moment.node = .this target →
    moment.machine.table[target.id]? ≠ none →
    ∃ value, outcome (Run.read target) moment.machine = (.ok value, moment.machine)
  super : ∀ keyword method, moment.node = .super keyword method →
    ∃ distance parent self, moment.machine.table[keyword.id]? = some (distance + 1) ∧
      moment.machine.frames.findAt? moment.machine.current (distance + 1) Scope.superName =
        some (.classAt parent) ∧
      moment.machine.frames.findAt? moment.machine.current distance Scope.thisName =
        some (.instanceAt self) ∧
      moment.machine.super? keyword = some (parent, self)

/-- An assignment with an entry that is about to be made: it is made in the frame there, unless the
name is being defined in the innermost scope. Then it is refused. -/
structure Moment.Assigns (programs : List Program) (moment : Moment) : Prop where
  visited : Accepted programs (.visit moment.visit)
  made : ∀ target value distance, moment.node = .assign target value →
    moment.machine.table[target.id]? = some distance →
    Scope.isBeingDefined target.name.text moment.site.scopes = false → ∀ assigned,
    ∃ frames, moment.machine.frames.assignAt? moment.machine.current distance target.name.text
        assigned = some frames ∧
      outcome (Run.assign target assigned) moment.machine =
        (.ok (), { moment.machine with frames })
  refused : ∀ target value distance, moment.node = .assign target value →
    moment.machine.table[target.id]? = some distance →
    Scope.isBeingDefined target.name.text moment.site.scopes = true → ∀ assigned,
    moment.machine.frames.assignAt? moment.machine.current distance target.name.text
        assigned = none ∧
      outcome (Run.assign target assigned) moment.machine =
        (.error (.error ⟨.undefinedVariable target.name.text, target.name.line⟩), moment.machine)

namespace Moment

variable {programs : List Program} {node : Expr} {site : Site} {m : Machine}

lemma agrees_of_binds (hr : Ruled programs m.table)
    (hv : Accepted programs (.visit ⟨node, site.context, site.scopes⟩)) (hp : node.Proper)
    (hdepth : site.frames.length = site.scopes.length)
    (houtward : ∀ distance, m.frames.ancestor? m.current distance =
      (site.frames ++ [.globals])[distance]?)
    (hbinds : ∀ i name distance, node.use? = some (i, name) → node.isAssign = false →
      site.scopes.findIdx? (·.contains name) = some distance →
      ∃ frame, site.frames[distance]? = some frame ∧ m.frames.binds frame name = true)
    (hsuper : ∀ keyword method, node = .super keyword method →
      Laid m.frames .withSuperclass site.scopes site.frames) :
    Agrees programs ⟨node, site, m⟩ := by
  have hancestor {distance : Nat} {frame : FrameRef} (hframe : site.frames[distance]? = some frame) :
      m.frames.ancestor? m.current distance = some frame := by
    rw [houtward, List.getElem?_append_left (List.getElem?_eq_some_iff.mp hframe).1, hframe]
  have hfound (i : Nat) (name : String) (distance : Nat) (hu : node.use? = some (i, name))
      (hentry : m.table[i]? = some distance) :
      site.scopes.findIdx? (·.contains name) = some distance := by
    rw [← hentry]
    exact (hr.entries _ hv i name hu).symm
  have hbound (i : Nat) (name : String) (distance : Nat) (hu : node.use? = some (i, name))
      (ha : node.isAssign = false) (hentry : m.table[i]? = some distance) :
      ∃ frame, site.frames[distance]? = some frame ∧
        m.frames.ancestor? m.current distance = some frame ∧ m.frames.binds frame name = true := by
    obtain ⟨frame, hframe, hb⟩ := hbinds i name distance hu ha (hfound i name distance hu hentry)
    exact ⟨frame, hframe, hancestor hframe, hb⟩
  refine ⟨hv, hdepth, houtward, hfound, hbound, fun target hnode hentry => ?_,
    fun keyword method hnode => ?_⟩
  · obtain ⟨distance, hentry⟩ := Option.ne_none_iff_exists'.mp hentry
    obtain ⟨hu, ha⟩ : node.use? = some (target.id, target.name.text) ∧ node.isAssign = false := by
      rcases hnode with rfl | rfl
      · exact ⟨rfl, rfl⟩
      · have hthis : target.name.text = Scope.thisName := hp
        exact ⟨by rw [hthis]; rfl, rfl⟩
    obtain ⟨frame, -, hframe, hb⟩ := hbound _ _ _ hu ha hentry
    exact Machine.read_of_binds hentry hframe hb
  · obtain ⟨distance, frame, upper, self, parent, hidx, hframe, hthis, hupper, hclass⟩ :=
      (hsuper keyword method hnode).exists_super
    subst hnode
    have hentry : m.table[keyword.id]? = some (distance + 1) :=
      (hr.entries _ hv keyword.id Scope.superName rfl).trans hidx
    have hclassAt : m.frames.findAt? m.current (distance + 1) Scope.superName =
        some (.classAt parent) := by
      rw [Frames.findAt?, hancestor hupper, Option.bind_some, hclass]
    have hthisAt : m.frames.findAt? m.current distance Scope.thisName = some (.instanceAt self) := by
      rw [Frames.findAt?, hancestor hframe, Option.bind_some, hthis]
    refine ⟨distance, parent, self, hentry, hclassAt, hthisAt, ?_⟩
    simp only [Machine.super?, hentry, hclassAt, hthisAt]

end Moment

namespace Site.Holds

variable {programs : List Program} {node : Expr} {site : Site} {m : Machine}

lemma outward (h : site.Holds m) (hroot : m.frames.enclosing? .globals = none) (distance : Nat) :
    m.frames.ancestor? m.current distance = (site.frames ++ [.globals])[distance]? := by
  rw [h.current]
  exact h.laid.ancestor?_eq hroot distance

lemma not_isBeingDefined (h : site.Holds m) (hr : Ruled programs m.table)
    (hv : Accepted programs (.visit ⟨node, site.context, site.scopes⟩)) {i : Nat} {name : String}
    (hu : node.use? = some (i, name)) (ha : node.isAssign = false) :
    Scope.isBeingDefined name site.scopes = false := by
  have special (hn : ¬ Scope.IsPlain name) : Scope.isBeingDefined name site.scopes = false := by
    rcases hscopes : site.scopes with _ | ⟨scope, outer⟩
    · rfl
    · have hplain := h.plain scope (by rw [hscopes]; rfl)
      have hnone : scope.get? name = none := by
        by_contra hsome
        exact hn (hplain name (Option.isSome_iff_ne_none.mpr hsome))
      simp [Scope.isBeingDefined, hnone]
  have hclean := hr.clean _ hv
  cases node with
  | read target =>
    obtain ⟨rfl, rfl⟩ : target.id = i ∧ target.name.text = name := by simpa [Expr.use?] using hu
    simp only [Event.findings, Visit.findings, Reference.resolveRead, Findings.violations_append,
      List.append_eq_nil_iff, Findings.violationIf_eq] at hclean
    exact hclean.1
  | this keyword =>
    obtain ⟨-, rfl⟩ : keyword.id = i ∧ Scope.thisName = name := by simpa [Expr.use?] using hu
    exact special Scope.thisName_not_plain
  | super keyword method =>
    obtain ⟨-, rfl⟩ : keyword.id = i ∧ Scope.superName = name := by simpa [Expr.use?] using hu
    exact special Scope.superName_not_plain
  | assign => simp [Expr.isAssign] at ha
  | literal | grouping | unary | binary | logical | call | get | set => simp [Expr.use?] at hu

lemma withSuperclass (h : site.Holds m) (hr : Ruled programs m.table) {keyword : Reference}
    {method : Name}
    (hv : Accepted programs (.visit ⟨.super keyword method, site.context, site.scopes⟩)) :
    Laid m.frames .withSuperclass site.scopes site.frames := by
  have hclean := hr.clean _ hv
  have hlaid := h.laid
  simp only [Event.findings, Visit.findings, Expr.resolve, Findings.violations_append,
    List.append_eq_nil_iff, Findings.violationIf_eq, decide_eq_false_iff_not] at hclean
  obtain ⟨⟨hnone, hwithout⟩, -⟩ := hclean
  cases howner : site.context.owner with
  | none => exact absurd howner hnone
  | withoutSuperclass => exact absurd howner hwithout
  | withSuperclass => rwa [howner] at hlaid

lemma agrees (h : site.Holds m) (hroot : m.frames.enclosing? .globals = none)
    (hr : Ruled programs m.table)
    (hv : Accepted programs (.visit ⟨node, site.context, site.scopes⟩)) (hp : node.Proper) :
    Moment.Agrees programs ⟨node, site, m⟩ := by
  refine Moment.agrees_of_binds hr hv hp h.laid.length_eq (h.outward hroot) ?_ ?_
  · intro i name distance hu ha hfound
    exact h.laid.binds_of_found h.settled (h.not_isBeingDefined hr hv hu ha) hfound
  · rintro keyword method rfl
    exact h.withSuperclass hr hv

/-- The superclass is read where the name of the class is in scope and not bound yet. -/
lemma agrees_superclass (h : site.Holds m) (hs : Scope.Settled site.scopes)
    (hroot : m.frames.enclosing? .globals = none) (hr : Ruled programs m.table) {name : Name}
    {target : Reference} (hne : target.name.text ≠ name.text)
    (hv : Accepted programs
      (.visit ⟨.read target, site.context, (site.introducing name).scopes⟩)) :
    Moment.Agrees programs ⟨.read target, site.introducing name, m⟩ := by
  have hdepth : (site.introducing name).scopes.length = site.scopes.length := by
    obtain ⟨context, _ | ⟨scope, scopes⟩, frames⟩ := site <;> rfl
  have hfind : (site.introducing name).scopes.findIdx? (·.contains target.name.text) =
      site.scopes.findIdx? (·.contains target.name.text) := by
    obtain ⟨context, _ | ⟨scope, scopes⟩, frames⟩ := site
    · rfl
    · change ((scope.insert name.text .declared).insert name.text .defined :: scopes).findIdx? _ = _
      simp [List.findIdx?_cons, Bindings.contains_insert, hne]
  refine Moment.agrees_of_binds hr hv trivial (h.laid.length_eq.trans hdepth.symm)
    (h.outward hroot) ?_ (by simp)
  intro i other distance hu _ hfound
  obtain ⟨-, rfl⟩ : target.id = i ∧ target.name.text = other := by simpa [Expr.use?] using hu
  rw [hfind] at hfound
  refine h.laid.binds_of_found h.settled ?_ hfound
  rcases hscopes : site.scopes with _ | ⟨scope, outer⟩
  · rfl
  · have hscope := hs scope (by rw [hscopes]; exact List.mem_cons_self ..) target.name.text
    simpa [Scope.isBeingDefined] using hscope

lemma binder?_eq (h : site.Holds m) (hroot : m.frames.enclosing? .globals = none) {target : Reference}
    {distance : Nat} (hentry : m.table[target.id]? = some distance)
    (hlt : distance < site.scopes.length) :
    m.binder? target = site.frames[distance]?.filter (m.frames.binds · target.name.text) := by
  rw [← h.laid.length_eq] at hlt
  simp only [Machine.binder?, hentry, Frames.binderAt?]
  rw [h.outward hroot, List.getElem?_append_left hlt]

lemma assigns (h : site.Holds m) (hroot : m.frames.enclosing? .globals = none)
    (hr : Ruled programs m.table)
    (hv : Accepted programs (.visit ⟨node, site.context, site.scopes⟩)) :
    Moment.Assigns programs ⟨node, site, m⟩ := by
  have hfound {target : Reference} {value : Expr} {distance : Nat}
      (hnode : node = .assign target value) (hentry : m.table[target.id]? = some distance) :
      site.scopes.findIdx? (·.contains target.name.text) = some distance := by
    subst hnode
    exact (hr.entries _ hv target.id target.name.text rfl).symm.trans hentry
  have hassign {target : Reference} {distance : Nat} (assigned : Value)
      (hentry : m.table[target.id]? = some distance) :
      m.frames.assignAt? m.current distance target.name.text assigned =
        (m.binder? target).map (m.frames.define · target.name.text assigned) := by
    simp only [Frames.assignAt?, Machine.binder?, hentry]
  refine ⟨hv, fun target value distance hnode hentry hd assigned => ?_,
    fun target value distance hnode hentry hd assigned => ?_⟩
  · have hidx := hfound hnode hentry
    obtain ⟨frame, hframe, hb⟩ := h.laid.binds_of_found h.settled hd hidx
    have hbinder : m.binder? target = some frame := by
      rw [h.binder?_eq hroot hentry (List.findIdx?_eq_some_iff_getElem.mp hidx).1, hframe]
      exact Option.filter_eq_some_iff.mpr ⟨rfl, hb⟩
    refine ⟨m.frames.define frame target.name.text assigned, ?_, ?_⟩
    · simp only [hassign assigned hentry, hbinder, Option.map_some]
    · simp only [Run.outcome_assign, hbinder]
  · have hidx := hfound hnode hentry
    have hbinder : m.binder? target = none := by
      rw [h.binder?_eq hroot hentry (List.findIdx?_eq_some_iff_getElem.mp hidx).1]
      -- The innermost scope has the name, but the current frame has not.
      obtain ⟨context, _ | ⟨scope, scopes⟩, frames⟩ := site
      · simp [Scope.isBeingDefined] at hd
      have hdeclared : scope.get? target.name.text = some .declared := by
        simpa [Scope.isBeingDefined] using hd
      obtain rfl : 0 = distance := by
        simpa [List.findIdx?_cons, Bindings.contains, hdeclared] using hidx
      obtain ⟨frame, outer, rfl, -⟩ := h.laid.of_plain (h.plain scope rfl)
      have hnot : ¬ m.frames.binds frame target.name.text = true := by
        intro hb
        obtain rfl : m.current = frame := h.current
        have hdefined := h.exact scope rfl _ hb
        simp [hdeclared] at hdefined
      simpa using hnot
    constructor
    · simp only [hassign assigned hentry, hbinder, Option.map_none]
    · simp only [Run.outcome_assign, hbinder]

end Site.Holds

end Lox
