import Lox.Proofs.Bindings
import Lox.Proofs.Scope.Entries
import Lox.Proofs.Watch.Layout

/-! The place at which a machine runs: the frames there are made for the scopes, and the current one
has just the names that are defined in the innermost scope. -/

namespace Lox

namespace Scope

variable {scopes : List Scope}

lemma introduce_cons (name : Name) (scope : Scope) (scopes : List Scope) :
    (introduce name (scope :: scopes)).2 =
      (scope.insert name.text .declared).insert name.text .defined :: scopes := rfl

lemma HasPlainNames.insert {scope : Scope} (h : scope.HasPlainNames) {name : String}
    (hn : IsPlain name) (state : NameState) : HasPlainNames (scope.insert name state) := by
  intro other hother
  rw [Bindings.contains_insert, Bool.or_eq_true, beq_iff_eq] at hother
  rcases hother with rfl | hother
  · exact hn
  · exact h other hother

lemma hasPlainNames_empty : HasPlainNames ∅ := by
  simp [HasPlainNames, Bindings.contains]

lemma get?_introduced (scope : Scope) (name other : String) :
    ((scope.insert name .declared).insert name .defined).get? other =
      if other = name then some .defined else scope.get? other := by
  rw [Bindings.get?_insert]
  split
  · rfl
  · rename_i hne
    rw [Bindings.get?_insert, if_neg hne]

lemma Settled.introduce (h : Settled scopes) (name : Name) :
    Settled (introduce name scopes).2 := by
  cases scopes with
  | nil => exact h
  | cons scope outer =>
    obtain ⟨hscope, houter⟩ := List.forall_mem_cons.mp h
    rw [introduce_cons]
    refine List.forall_mem_cons.mpr ⟨fun other => ?_, houter⟩
    rw [get?_introduced]
    split
    · simp
    · exact hscope other

lemma introduceAll_cons (names : List Name) (scope : Scope) (scopes : List Scope) :
    ∃ inner, (introduceAll names (scope :: scopes)).2 = inner :: scopes ∧ ∀ name,
      inner.get? name =
        if name ∈ names.map Name.text then some .defined else scope.get? name := by
  induction names generalizing scope with
  | nil => exact ⟨scope, rfl, fun _ => by simp⟩
  | cons first names ih =>
    obtain ⟨inner, hinner, hget⟩ := ih ((scope.insert first.text .declared).insert first.text .defined)
    refine ⟨inner, hinner, fun name => ?_⟩
    rw [hget, get?_introduced, List.map_cons]
    by_cases hfirst : name = first.text <;> by_cases hrest : name ∈ names.map Name.text <;>
      simp [hfirst, hrest]

end Scope

lemma Stmt.scopes_after (context : Context) (scopes : List Scope) (stated : Stmt)
    (hd : stated.isDeclaration = false) (hp : stated.Proper) :
    (stated.resolve context scopes).2 = scopes := by
  cases stated with
  | expression | print | block | ret => rfl
  | varDecl | functionDecl | classDecl => simp [isDeclaration] at hd
  | ifElse condition thenBranch elseBranch =>
    cases elseBranch with
    | none => exact Stmt.scopes_after context scopes thenBranch hp.2.1 hp.2.2
    | some elseBranch =>
      obtain ⟨-, ⟨hthen, hthenProper⟩, helse, helseProper⟩ := hp
      simp only [Stmt.resolve]
      rw [Stmt.scopes_after context scopes thenBranch hthen hthenProper]
      exact Stmt.scopes_after context scopes elseBranch helse helseProper
  | whileLoop condition body => exact Stmt.scopes_after context scopes body hp.2.1 hp.2.2

lemma Stmt.scopes_after_top (context : Context) (stated : Stmt) :
    (stated.resolve context []).2 = [] := by
  cases stated with
  | expression | print | varDecl | functionDecl | classDecl | block | ret => rfl
  | ifElse condition thenBranch elseBranch =>
    have hthen := Stmt.scopes_after_top context thenBranch
    cases elseBranch with
    | none => exact hthen
    | some elseBranch =>
      simp only [Stmt.resolve]
      rw [hthen]
      exact Stmt.scopes_after_top context elseBranch
  | whileLoop condition body => exact Stmt.scopes_after_top context body

/-- A machine is at a place. -/
structure Site.Holds (site : Site) (m : Machine) : Prop where
  laid : Laid m.frames site.context.owner site.scopes site.frames
  settled : Scope.Settled site.scopes.tail
  plain : ∀ scope ∈ site.scopes.head?, scope.HasPlainNames
  current : m.current = site.frames.headD .globals
  exact : ∀ scope ∈ site.scopes.head?, ∀ name, m.frames.binds m.current name = true →
    scope.get? name = some .defined

namespace Site

variable {site : Site} {m : Machine} {name : Name}

lemma holds_top (h : m.current = .globals) : top.Holds m where
  laid := .top
  settled := by simp [top, Scope.Settled]
  plain := by simp [top]
  current := h
  exact := by simp [top]

namespace Holds

lemma follows {m' : Machine} (h : site.Holds m) (hf : Frames.Follows none m.frames m'.frames)
    (hc : m'.current = m.current) : site.Holds m' where
  laid := h.laid.follows hf
  settled := h.settled
  plain := h.plain
  current := hc.trans h.current
  exact scope hs name hb := by
    rw [hc] at hb
    refine h.exact scope hs name (hf.names _ _ ?_ (by simp) hb)
    obtain ⟨context, _ | ⟨first, scopes⟩, frames⟩ := site
    · simp at hs
    · obtain ⟨frame, outer, rfl, -, henclosing, -⟩ := h.laid.of_plain (h.plain first rfl)
      rw [h.current]
      exact Frames.index_lt_of_enclosing? henclosing

lemma declaring (h : site.Holds m) (hn : Scope.IsPlain name.text)
    (hnew : (Scope.declare name site.scopes).1.violations = []) : (site.declaring name).Holds m := by
  obtain ⟨context, _ | ⟨scope, scopes⟩, frames⟩ := site
  · exact h
  have hfresh : scope.contains name.text = false := Findings.violationIf_eq.mp hnew
  have hget {other : String} (hother : other ≠ name.text) :
      (scope.insert name.text .declared).get? other = scope.get? other := by
    rw [Bindings.get?_insert, if_neg hother]
  have hplain := h.plain scope rfl
  obtain ⟨frame, outer, rfl, hlaid, henclosing, hbinds⟩ := h.laid.of_plain hplain
  have hplain' := hplain.insert hn .declared
  refine ⟨.block hlaid henclosing hplain' fun other hother => ?_, h.settled, ?_, h.current, ?_⟩
  · by_cases heq : other = name.text
    · simp [heq] at hother
    · rw [hget heq] at hother
      exact hbinds other hother
  · rintro _ ⟨⟩
    exact hplain'
  · rintro _ ⟨⟩ other hother
    have hdefined := h.exact scope rfl other hother
    have hne : other ≠ name.text := by
      rintro rfl
      simp [Bindings.contains, hdefined] at hfresh
    rw [hget hne, hdefined]

lemma introducing (h : site.Holds m) (hn : Scope.IsPlain name.text) (value : Value) :
    (site.introducing name).Holds
      { m with frames := m.frames.define m.current name.text value } := by
  obtain ⟨context, _ | ⟨scope, scopes⟩, frames⟩ := site
  · exact ⟨h.laid.follows (Frames.follows_define hn value), h.settled, h.plain, h.current,
      by simp [Site.introducing, Scope.introduce, Scope.declare, Scope.define]⟩
  have hplain := h.plain scope rfl
  obtain ⟨frame, outer, rfl, hlaid, henclosing, hbinds⟩ := h.laid.of_plain hplain
  obtain rfl : m.current = frame := h.current
  have hcurrent := Frames.index_lt_of_enclosing? henclosing
  have hplain' := (hplain.insert hn .declared).insert hn .defined
  refine ⟨.block (hlaid.follows (Frames.follows_define hn value)) ?_ hplain' ?_, h.settled, ?_, rfl,
    ?_⟩
  · rwa [Frames.enclosing?_define]
  · intro other hother
    rw [Scope.get?_introduced] at hother
    rw [Frames.binds_define_iff]
    split at hother
    · rename_i heq
      exact .inr ⟨rfl, heq, hcurrent⟩
    · exact .inl (hbinds other hother)
  · rintro _ ⟨⟩
    exact hplain'
  · rintro _ ⟨⟩ other hother
    rw [Scope.get?_introduced]
    rcases (Frames.binds_define_iff value).mp hother with hother | ⟨-, rfl, -⟩
    · rw [h.exact scope rfl other hother, ite_self]
    · rw [if_pos rfl]

lemma inBlock (h : site.Holds m) (hs : Scope.Settled site.scopes) :
    (site.inBlock m.frames.next).Holds
      { m with frames := m.frames.push m.current ∅, current := m.frames.next } where
  laid := by
    have hpushed : Frames.Follows none m.frames (m.frames.push m.current ∅) :=
      Frames.follows_push ..
    refine .block (h.laid.follows hpushed) ?_ Scope.hasPlainNames_empty (by simp)
    rw [Frames.enclosing?_push, if_pos rfl, h.current]
  settled := hs
  plain := by
    rintro _ ⟨⟩
    exact Scope.hasPlainNames_empty
  current := rfl
  exact := by
    rintro _ ⟨⟩ name hb
    simp [Frames.binds, Frames.lookup?_push] at hb

end Holds

lemma holds_inCall {params : List Name} {arguments : List Value}
    (hl : Laid m.frames site.context.owner site.scopes site.frames)
    (hs : Scope.Settled site.scopes) (hp : ∀ param ∈ params, Scope.IsPlain param.text)
    (hlen : arguments.length = params.length) :
    (site.inCall params m.frames.next).Holds
      { m with
        frames := m.frames.push (site.frames.headD .globals)
          ((∅ : Bindings Value).insertAll ((params.map Name.text).zip arguments))
        current := m.frames.next } := by
  obtain ⟨inner, hinner, hget⟩ := Scope.introduceAll_cons params ∅ site.scopes
  have hkeys : ((params.map Name.text).zip arguments).map Prod.fst = params.map Name.text :=
    List.map_fst_zip (by simp [hlen])
  have hbinds (name : String) :
      (m.frames.push (site.frames.headD .globals)
        ((∅ : Bindings Value).insertAll ((params.map Name.text).zip arguments))).binds
          m.frames.next name = true ↔ name ∈ params.map Name.text := by
    rw [Frames.binds, Frames.lookup?_push, if_pos rfl]
    exact (Bindings.contains_insertAll ..).trans (by simp [hkeys, Bindings.contains])
  have hdefined (name : String) :
      inner.get? name = some .defined ↔ name ∈ params.map Name.text := by
    rw [hget]
    split
    · simp [*]
    · simp [*]
  have hplain : inner.HasPlainNames := by
    intro name hname
    rw [Bindings.contains, hget] at hname
    split at hname
    · rename_i hmem
      obtain ⟨param, hparam, rfl⟩ := List.mem_map.mp hmem
      exact hp param hparam
    · simp at hname
  have hpushed : Frames.Follows none m.frames (m.frames.push (site.frames.headD .globals)
      ((∅ : Bindings Value).insertAll ((params.map Name.text).zip arguments))) :=
    Frames.follows_push ..
  refine ⟨?_, ?_, ?_, rfl, ?_⟩ <;> simp only [inCall, hinner]
  · refine .block (hl.follows hpushed) ?_ hplain fun name hname => ?_
    · rw [Frames.enclosing?_push, if_pos rfl]
    · exact (hbinds name).mpr ((hdefined name).mp hname)
  · exact hs
  · rintro _ ⟨⟩
    exact hplain
  · rintro _ ⟨⟩ name hname
    exact (hdefined name).mpr ((hbinds name).mp hname)

lemma settled_inCall (hs : Scope.Settled site.scopes) (params : List Name) (frame : FrameRef) :
    Scope.Settled (site.inCall params frame).scopes := by
  obtain ⟨inner, hinner, hget⟩ := Scope.introduceAll_cons params ∅ site.scopes
  simp only [inCall, hinner]
  refine List.forall_mem_cons.mpr ⟨fun name => ?_, hs⟩
  rw [hget]
  split <;> simp

end Site

end Lox
