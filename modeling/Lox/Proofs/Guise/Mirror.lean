import Lox.Proofs.Guise.Machine
import Lox.Proofs.Labels.Scoping
import Lox.Proofs.Watch.Origins
import Lox.Proofs.Watch.Preservation

/-! Watched runs and runs in a guise side by side. A guise is faithful to programs if what their names
are found to be is the same in the guise. -/

namespace Lox

/-- No name is being defined, or only one whose initial value is being evaluated. -/
def Site.Pending (programs : List Program) (site : Site) : Prop :=
  Scope.Settled site.scopes ∨ ∃ name scopes, Scope.Settled scopes ∧
    Accepted programs (.declare name scopes) ∧ site.scopes = (Scope.declare name scopes).2

lemma Site.Pending.declares {programs : List Program} {site : Site} (h : site.Pending programs)
    {name : String} (hd : Scope.isBeingDefined name site.scopes = true) :
    ∃ decl scope outer, Accepted programs (.declare decl (scope :: outer)) ∧ decl.text = name ∧
      site.scopes = scope.insert name .declared :: outer := by
  rcases h with hsettled | ⟨decl, scopes, hsettled, hv, hscopes⟩
  · rcases hsite : site.scopes with _ | ⟨scope, outer⟩ <;> rw [hsite] at hd hsettled
    · simp [Scope.isBeingDefined] at hd
    · have hnot := hsettled scope (List.mem_cons_self ..) name
      exact absurd (by simpa [Scope.isBeingDefined] using hd) hnot
  · rcases scopes with _ | ⟨scope, outer⟩ <;> rw [hscopes] at hd
    · simp [Scope.declare, Scope.isBeingDefined] at hd
    · obtain rfl : decl.text = name := by
        by_contra hne
        have hdeclared : scope.get? name = some .declared := by
          simpa [Scope.declare, Scope.isBeingDefined, Ne.symm hne] using hd
        exact hsettled scope (List.mem_cons_self ..) name hdeclared
      exact ⟨decl, scope, outer, hv, rfl, hscopes⟩

/-- A place where a watched run is about to go on, and what is known of the names there. -/
structure Placed (programs : List Program) (site : Site) (w : Watch) : Prop where
  ready : Ready programs site w
  named : Named programs w
  clean : w.machine.frames.SpecialInPlace site.scopes site.frames
  pending : site.Pending programs

namespace Placed

variable {programs : List Program} {site : Site} {w w' : Watch}

lemma advances (h : Placed programs site w) (ha : Advances programs none w w')
    (hn : Named programs w') : Placed programs site w' :=
  ⟨h.ready.advances ha, hn, ha.frames.specialInPlace h.clean, h.pending⟩

lemma note (h : Placed programs site w) {moments assignments : List Moment}
    (hm : ∀ moment ∈ moments, moment.Agrees programs)
    (ha : ∀ moment ∈ assignments, moment.Assigns programs) :
    Placed programs site { w with journal := { w.journal with moments, assignments } } where
  ready :=
    ⟨{ h.ready.sound with moments := hm, assignments := ha }, h.ready.ruled, h.ready.holds⟩
  named := h.named.note moments assignments
  clean := h.clean
  pending := h.pending

lemma current_eq_globals_iff (h : Ready programs site w) :
    w.machine.current = .globals ↔ site.scopes = [] := by
  constructor
  · intro hglobals
    rcases hscopes : site.scopes with _ | ⟨scope, scopes⟩
    · rfl
    · have hlaid := h.holds.laid
      rw [hscopes] at hlaid
      have hplain := h.holds.plain scope (by rw [hscopes]; rfl)
      obtain ⟨frame, outer, hframes, -, henclosing, -⟩ := hlaid.of_plain hplain
      have hcurrent := h.holds.current
      rw [hframes, List.headD_cons, hglobals] at hcurrent
      rw [← hcurrent, h.sound.root] at henclosing
      simp at henclosing
  · intro hscopes
    have hlength := h.holds.laid.length_eq
    rw [hscopes, List.length_nil, List.length_eq_zero_iff] at hlength
    rw [h.holds.current, hlength]
    rfl

lemma ancestor?_current (h : Ready programs site w) :
    w.machine.frames.ancestor? w.machine.current site.scopes.length = some .globals := by
  rw [h.holds.outward h.sound.root, ← h.holds.laid.length_eq]
  simp

/-- A name is declared where those are in scope that the current frame binds already. -/
lemma beside_current (h : Ready programs site w) {name : Name}
    (hv : Accepted programs (.declare name site.scopes)) (hne : w.machine.current ≠ .globals)
    (other : String) (hother : w.machine.frames.binds w.machine.current other = true) :
    Beside programs name.text other := by
  rcases hscopes : site.scopes with _ | ⟨scope, outer⟩
  · exact absurd ((current_eq_globals_iff h).mpr hscopes) hne
  · rw [hscopes] at hv
    have hdefined := h.holds.exact scope (by rw [hscopes]; rfl) other hother
    exact ⟨name, scope, outer, hv, rfl, by simp [Bindings.contains, hdefined]⟩

end Placed

/-- The other names keep those apart that the programs declare in one scope, and they are the same as
before for functions and classes, and for what is global. -/
structure Labels.Suits (l : Labels) (programs : List Program) : Prop where
  plain : l.Plain
  titles : ∀ d, Declares programs d → d.isVariable = false → l.name d.name = d.name
  top : ∀ name, Accepted programs (.declare name []) → l.name name.text = name.text
  apart : ∀ name scope outer, Accepted programs (.declare name (scope :: outer)) →
    scope.Apart l.name name.text

namespace Labels.Suits

variable {l : Labels} {programs : List Program} {w : Watch} {site : Site}

lemma special (hl : l.Suits programs) {name : String} (hn : ¬ Scope.IsPlain name) :
    l.name name = name := by
  simp only [Scope.IsPlain, not_and_or, not_not] at hn
  rcases hn with rfl | rfl
  · exact (hl.plain.this _).mpr rfl
  · exact (hl.plain.super _).mpr rfl

lemma eq_of_special (hl : l.Suits programs) {name other : String} (hn : ¬ Scope.IsPlain name)
    (h : l.name other = l.name name) : other = name := by
  rw [hl.special hn] at h
  simp only [Scope.IsPlain, not_and_or, not_not] at hn
  rcases hn with rfl | rfl
  · exact (hl.plain.this _).mp h
  · exact (hl.plain.super _).mp h

lemma tells_special (hl : l.Suits programs) (frames : Frames) (ref : FrameRef) {name : String}
    (hn : ¬ Scope.IsPlain name) : Frames.Tells l.name frames ref name :=
  ⟨fun _ => hl.special hn, fun _ _ _ h => hl.eq_of_special hn h⟩

lemma ne_of_beside (hl : l.Suits programs) {one other : String} (h : Beside programs one other)
    (hsame : l.name other = l.name one) : other = one := by
  obtain ⟨decl, scope, outer, hv, rfl, hother⟩ := h
  exact hl.apart decl scope outer hv other hother hsame

lemma tells_bound (hl : l.Suits programs) (hn : Named programs w) {ref : FrameRef} {name : String}
    (hb : w.machine.frames.binds ref name = true)
    (hglobals : ref = .globals → l.name name = name) :
    Frames.Tells l.name w.machine.frames ref name := by
  refine ⟨hglobals, fun hr other hother hsame => ?_⟩
  by_cases hname : Scope.IsPlain name
  · by_contra hne
    have hplain : Scope.IsPlain other := by
      rw [← hl.plain.isPlain_iff, hsame, hl.plain.isPlain_iff]
      exact hname
    rcases hn.beside ref name other hr hname hplain (Ne.symm hne) hb hother with h | h
    · exact hne (hl.ne_of_beside h hsame)
    · exact hne (hl.ne_of_beside h hsame.symm).symm
  · exact hl.eq_of_special hname hsame

lemma tells_declared (hl : l.Suits programs) (hr : Ready programs site w) {name : Name}
    (hv : Accepted programs (.declare name site.scopes)) :
    Frames.Tells l.name w.machine.frames w.machine.current name.text := by
  have hglobals := Placed.current_eq_globals_iff hr
  rcases hscopes : site.scopes with _ | ⟨scope, outer⟩ <;> rw [hscopes] at hv hglobals
  · exact ⟨fun _ => hl.top name hv, fun hne => absurd (hglobals.mpr rfl) hne⟩
  · refine ⟨fun heq => absurd (hglobals.mp heq) (List.cons_ne_nil _ _), fun _ other hother hsame => ?_⟩
    have hdefined := hr.holds.exact scope (by rw [hscopes]; rfl) other hother
    exact hl.apart name scope outer hv other (by simp [Bindings.contains, hdefined]) hsame

end Labels.Suits

namespace Guise

variable {α β γ κ : Type} {g : Guise} {programs : List Program}

/-- In the guise a use of a name is found to be bound in the same frame, under a name that is told
from the others there. -/
def Finds (g : Guise) (m : Machine) (target : Reference) : Prop :=
  g.find (g.machine m) (g.labels.reference target) = m.binder? target ∧
    ∀ frame, m.binder? target = some frame →
      Frames.Tells g.labels.name m.frames frame target.name.text

structure Faithful (g : Guise) (programs : List Program) : Prop
    extends g.labels.Suits programs where
  entries : ∀ v, Accepted programs (.visit v) → v.Agrees g.table
  reads : ∀ (w : Watch) (site : Site) (node : Expr) (target : Reference), Sound programs w →
    Ruled programs w.machine.table → Named programs w →
    w.machine.frames.SpecialInPlace site.scopes site.frames →
    Moment.Agrees programs ⟨node, site, w.machine⟩ →
    (node = .read target ∨ node = .this target ∧ target.name.text = Scope.thisName) →
    g.Finds w.machine target
  assigns : ∀ (w : Watch) (site : Site) (target : Reference) (value : Expr), Placed programs site w →
    Accepted programs (.visit ⟨.assign target value, site.context, site.scopes⟩) →
    Scope.IsPlain target.name.text → g.Finds w.machine target

/-- From the machine of a watch, in the guise, the second run does as the watched one, and whatever
comes of it the names are as they should be. -/
def Mirrors (g : Guise) (programs : List Program) (w : Watch) (x : WatchedRun α) (y : Run β)
    (value : α → β) : Prop :=
  Matches (fun w m => m = g.machine w.machine ∧ Named programs w) g.labels.halt w
    (g.machine w.machine) x y value

section Rules

open WatchedRun

variable {free : Option FrameRef} {w : Watch} {x : WatchedRun α} {y : Run β} {value : α → β}

lemma mirrors_pure (hn : Named programs w) {a : α} {b : β} (hb : b = value a) :
    g.Mirrors programs w (pure a) (pure b) value :=
  matches_pure ⟨rfl, hn⟩ hb

lemma Mirrors.bind {f : α → WatchedRun γ} {f' : β → Run κ} {value' : γ → κ}
    {post : α → Watch → Prop} (h : g.Mirrors programs w x y value) (hs : Safe programs free w x post)
    (hf : ∀ a w', Advances programs free w w' → post a w' → Named programs w' →
      g.Mirrors programs w' (f a) (f' (value a)) value') :
    g.Mirrors programs w (x >>= f) (y >>= f') value' := by
  refine Matches.bind h fun a w' m' hx ⟨hm, hn⟩ => ?_
  obtain ⟨hadvances, hpost⟩ := hs
  rw [hx] at hadvances hpost
  subst hm
  exact hf a w' hadvances (hpost a rfl) hn

lemma Mirrors.map {f : α → γ} {f' : β → κ} {value' : γ → κ} (h : g.Mirrors programs w x y value)
    (hf : ∀ a, f' (value a) = value' (f a)) :
    g.Mirrors programs w (f <$> x) (f' <$> y) value' :=
  Matches.map h hf

lemma mirrors_get {f : Watch → WatchedRun α} {f' : Machine → Run β}
    (h : g.Mirrors programs w (f w) (f' (g.machine w.machine)) value) :
    g.Mirrors programs w (get >>= f) (get >>= f') value :=
  matches_get h

lemma mirrors_lift {x : Run α} (h : g.Carries w.machine x y value)
    (hn : Named programs { w with machine := (outcome x w.machine).2 }) :
    g.Mirrors programs w (lift x) y value := by
  obtain ⟨hresult, hstates⟩ := h
  constructor
  · rw [outcome_lift]
    exact hresult
  · rw [outcome_lift]
    exact ⟨hstates, hn⟩

lemma mirrors_lift_bind {x : Run α} (h : g.Carries w.machine x y value) {b : α} {m : Machine}
    (hx : outcome x w.machine = (.ok b, m)) (hn : Named programs { w with machine := m })
    {f : α → WatchedRun γ} {f' : β → Run κ} {value' : γ → κ}
    (hf : Named programs { w with machine := m } →
      g.Mirrors programs { w with machine := m } (f b) (f' (value b)) value') :
    g.Mirrors programs w (lift x >>= f) (y >>= f') value' := by
  have hlift : g.Mirrors programs w (lift x) y value := by
    refine mirrors_lift h ?_
    rwa [hx]
  refine Matches.bind hlift fun a w' m' ho ⟨hm, hnamed⟩ => ?_
  rw [outcome_lift, hx] at ho
  obtain ⟨ha, hw⟩ := Prod.mk.inj ho
  obtain rfl := Except.ok.inj ha
  subst hm hw
  exact hf hnamed

lemma mirrors_require {found : Option α} {found' : Option β} (hn : Named programs w)
    (hfound : found' = found.map value) {cause cause' : RuntimeError.Cause} {line line' : Nat}
    (hc : cause' = g.labels.cause cause) (hl : line' = g.labels.line line)
    {f : α → WatchedRun γ} {f' : β → Run κ} {value' : γ → κ}
    (hf : ∀ a, found = some a → g.Mirrors programs w (f a) (f' (value a)) value') :
    g.Mirrors programs w (lift (Run.require found cause line) >>= f)
      (Run.require found' cause' line' >>= f') value' := by
  cases found with
  | some a =>
    subst hfound
    exact hf a rfl
  | none =>
    subst hfound hc hl
    exact matches_throw value' ⟨rfl, hn⟩ rfl

lemma mirrors_fail (hn : Named programs w) {cause cause' : RuntimeError.Cause} {line line' : Nat}
    (hc : cause' = g.labels.cause cause) (hl : line' = g.labels.line line) :
    g.Mirrors programs w (lift (Run.fail cause line)) (Run.fail cause' line') value :=
  mirrors_lift (carries_fail value hc hl) hn

lemma mirrors_within {frame : FrameRef} {x : WatchedRun α} {y : Run β}
    (h : g.Mirrors programs { w with machine.current := frame } x y value) :
    g.Mirrors programs w (within frame x) (Run.within frame y) value := by
  obtain ⟨hresult, hstates, hn⟩ := h
  constructor
  · rw [WatchedRun.outcome_within, Run.outcome_within]
    exact hresult
  · rw [WatchedRun.outcome_within, Run.outcome_within]
    refine ⟨?_, hn.setCurrent w.machine.current⟩
    change { (outcome y (g.machine { w.machine with current := frame })).2 with
      current := w.machine.current } = _
    rw [hstates]
    rfl

lemma Mirrors.noted {node : Expr} {site : Site}
    (h : g.Mirrors programs
      { w with journal.moments := ⟨node, site, w.machine⟩ :: w.journal.moments } x y value) :
    g.Mirrors programs w (note node site >>= fun _ => x) y value := by
  obtain ⟨hresult, hstates⟩ := h
  constructor
  · rw [outcome_bind]
    exact hresult
  · rw [outcome_bind]
    exact hstates

lemma Mirrors.notedAssignment {node : Expr} {site : Site}
    (h : g.Mirrors programs
      { w with journal.assignments := ⟨node, site, w.machine⟩ :: w.journal.assignments } x y value) :
    g.Mirrors programs w (noteAssignment node site >>= fun _ => x) y value := by
  obtain ⟨hresult, hstates⟩ := h
  constructor
  · rw [outcome_bind]
    exact hresult
  · rw [outcome_bind]
    exact hstates

end Rules

lemma mirrors_define (hn : Named programs w) {ref : FrameRef} {name : Name} {scopes : List Scope}
    (hp : Scope.IsPlain name.text) (hv : Accepted programs (.declare name scopes))
    (ht : Frames.Tells g.labels.name w.machine.frames ref name.text)
    (hglobal : w.machine.frames.ancestor? ref scopes.length = some .globals)
    (hbeside : ref ≠ .globals → ∀ other, w.machine.frames.binds ref other = true →
      Beside programs name.text other) (value : Value) :
    g.Mirrors programs w (WatchedRun.lift (Run.define ref name.text value))
      (Run.define ref (g.labels.name name.text) value) id :=
  mirrors_lift (carries_define ht rfl value) (hn.define hp hv hglobal hbeside value)

end Guise

end Lox
