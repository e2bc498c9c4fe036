import Lox.Proofs.Labels.Scoping
import Lox.Proofs.Local.Rename

/-! Resolution of a program in which a local variable has another name: each name is found in the scope
in which it was found before. -/

namespace Lox

/-- A name is found where its other name is, and one that is in fact another is found in a scope. -/
def Event.Alike (l : Labels) : Event → Prop
  | visit v => v.FoundAlike l ∧ ∀ i name, v.node.use? = some (i, name) →
      l.name name = name ∨ (v.scopes.findIdx? (·.contains name)).isSome = true
  | _ => True

namespace Renaming

variable {r : Renaming} {x : String} {n : Nat}

/-- The old name in place of the new one. -/
def undo (r : Renaming) (x : String) : Labels :=
  ⟨id, fun name => if name = r.name then x else name⟩

/-- The scope has the new name where the declaration is that one, and the old one where it is
another. -/
structure Marks (r : Renaming) (x : String) (origins : Bindings Nat) (scope : Scope) : Prop where
  new : scope.contains r.name = true ↔ origins.get? x = some r.number
  old : scope.contains x = true ↔ ∃ other, origins.get? x = some other ∧ other ≠ r.number
  only : ∀ name, origins.get? name = some r.number → name = x

/-- Of declarations with `n` before them, the one to be renamed is that of a variable `x`, and none has
the new name yet. -/
def Fits (r : Renaming) (x : String) (n : Nat) (ds : List Declaration) : Prop :=
  ∀ i d, ds[i]? = some d →
    d.name ≠ r.name ∧ (n + i = r.number → d.name = x ∧ d.isVariable = true)

/-- The events break no rule, and none of them refers to the new name. -/
def Clear (r : Renaming) (es : List Event) : Prop :=
  ∀ event ∈ es, event.findings.violations = [] ∧
    ∀ target ∈ event.reference?, target.name.text ≠ r.name

section Events

variable {es fs : List Event} {event : Event}

lemma Clear.left (h : r.Clear (es ++ fs)) : r.Clear es :=
  fun event he => h event (List.mem_append_left _ he)

lemma Clear.right (h : r.Clear (es ++ fs)) : r.Clear fs :=
  fun event he => h event (List.mem_append_right _ he)

lemma Clear.head (h : r.Clear (event :: es)) :
    event.findings.violations = [] ∧ ∀ target ∈ event.reference?, target.name.text ≠ r.name :=
  h event (List.mem_cons_self ..)

lemma Clear.tail (h : r.Clear (event :: es)) : r.Clear es :=
  fun event he => h event (List.mem_cons_of_mem _ he)

end Events

section Lists

variable {ds es : List Declaration} {d : Declaration}

lemma Fits.left (h : r.Fits x n (ds ++ es)) : r.Fits x n ds := by
  intro i d hd
  refine h i d ?_
  rw [List.getElem?_append_left (List.getElem?_eq_some_iff.mp hd).1, hd]

lemma Fits.right (h : r.Fits x n (ds ++ es)) : r.Fits x (n + ds.length) es := by
  intro i d hd
  have hi := h (ds.length + i) d
    (by rwa [List.getElem?_append_right (by omega), Nat.add_sub_cancel_left])
  rwa [← Nat.add_assoc] at hi

lemma Fits.tail (h : r.Fits x n (d :: ds)) : r.Fits x (n + 1) ds := by
  intro i e he
  have hi := h (i + 1) e he
  rwa [Nat.add_comm i 1, ← Nat.add_assoc] at hi

lemma Fits.head (h : r.Fits x n (d :: ds)) :
    d.name ≠ r.name ∧ (n = r.number → d.name = x ∧ d.isVariable = true) :=
  h 0 d rfl

lemma Fits.keepsTitles (h : r.Fits x n ds) : (r.undo x).KeepsTitles (r.declarations n ds) := by
  intro d hd hvariable
  obtain ⟨i, hi⟩ := List.mem_iff_getElem?.mp hd
  rw [getElem?_declarations] at hi
  obtain ⟨e, he, rfl⟩ := Option.map_eq_some_iff.mp hi
  have hname := (h i e he).1
  by_cases hrenamed : n + i = r.number ∧ e.isVariable = true
  · rw [declaration, if_pos hrenamed] at hvariable
    exact absurd (hrenamed.2.symm.trans hvariable) (by simp)
  · rw [declaration, if_neg hrenamed]
    exact if_neg hname

end Lists

section Scopes

variable {origins : Origins} {scopes : List Scope}

lemma undo_new (r : Renaming) (x : String) : (r.undo x).name r.name = x := if_pos rfl

lemma undo_other {name : String} (h : name ≠ r.name) : (r.undo x).name name = name := if_neg h

lemma undo_scope_old {scope : Scope} :
    ((r.undo x).scope scope).contains x = true ↔
      scope.contains x = true ∨ scope.contains r.name = true := by
  rw [Labels.scope, Bindings.contains_mapKeys]
  constructor
  · rintro ⟨other, hother, hname⟩
    by_cases hnew : other = r.name
    · exact .inr (hnew ▸ hother)
    · rw [undo_other hnew] at hname
      exact .inl (hname ▸ hother)
  · rintro (h | h)
    · by_cases hnew : x = r.name
      · exact ⟨x, h, by rw [hnew, undo_new]⟩
      · exact ⟨x, h, undo_other hnew⟩
    · exact ⟨r.name, h, undo_new r x⟩

lemma undo_scope_other {scope : Scope} {name : String} (hx : name ≠ x) (hnew : name ≠ r.name) :
    ((r.undo x).scope scope).contains name = scope.contains name := by
  rw [Bool.eq_iff_iff, Labels.scope, Bindings.contains_mapKeys]
  constructor
  · rintro ⟨other, hother, hname⟩
    by_cases hrenamed : other = r.name
    · rw [hrenamed, undo_new] at hname
      exact absurd hname.symm hx
    · rw [undo_other hrenamed] at hname
      exact hname ▸ hother
  · exact fun h => ⟨name, h, undo_other hnew⟩

lemma Marks.undo_old {bindings : Bindings Nat} {scope : Scope} (h : r.Marks x bindings scope) :
    ((r.undo x).scope scope).contains x = true ↔ (bindings.get? x).isSome = true := by
  rw [undo_scope_old, h.new, h.old, Option.isSome_iff_exists]
  constructor
  · rintro (⟨other, hother, -⟩ | h)
    · exact ⟨other, hother⟩
    · exact ⟨_, h⟩
  · rintro ⟨other, hother⟩
    by_cases hnumber : other = r.number
    · exact .inr (hnumber ▸ hother)
    · exact .inl ⟨other, hother, hnumber⟩

lemma findIdx?_new (h : List.Forall₂ (r.Marks x) origins scopes)
    (hfind : origins.find? x = some r.number) :
    scopes.findIdx? (fun scope => ((r.undo x).scope scope).contains x) =
        scopes.findIdx? (·.contains r.name) ∧
      (scopes.findIdx? (·.contains r.name)).isSome = true := by
  induction h with
  | nil => simp [Origins.find?] at hfind
  | @cons bindings scope rest outer hmarks _ ih =>
    rw [List.findIdx?_cons, List.findIdx?_cons]
    rw [Origins.find?] at hfind
    cases hget : bindings.get? x with
    | some number =>
      obtain rfl : number = r.number := by simpa [hget] using hfind
      rw [if_pos (hmarks.undo_old.mpr (by simp [hget])), if_pos (hmarks.new.mpr hget)]
      exact ⟨rfl, rfl⟩
    | none =>
      rw [hget, Option.none_or] at hfind
      obtain ⟨heq, hsome⟩ := ih hfind
      rw [if_neg (mt hmarks.undo_old.mp (by simp [hget])), if_neg (mt hmarks.new.mp (by simp [hget])),
        heq]
      simpa using hsome

lemma findIdx?_old (h : List.Forall₂ (r.Marks x) origins scopes)
    (hfind : origins.find? x ≠ some r.number) :
    scopes.findIdx? (fun scope => ((r.undo x).scope scope).contains x) =
      scopes.findIdx? (·.contains x) := by
  induction h with
  | nil => rfl
  | @cons bindings scope rest outer hmarks _ ih =>
    rw [List.findIdx?_cons, List.findIdx?_cons]
    rw [Origins.find?] at hfind
    cases hget : bindings.get? x with
    | some number =>
      have hnumber : number ≠ r.number := by simpa [hget] using hfind
      rw [if_pos (hmarks.undo_old.mpr (by simp [hget])), if_pos (hmarks.old.mpr ⟨number, hget, hnumber⟩)]
    | none =>
      rw [hget, Option.none_or] at hfind
      rw [if_neg (mt hmarks.undo_old.mp (by simp [hget])), if_neg (mt hmarks.old.mp (by simp [hget])),
        ih hfind]

lemma findIdx?_other {name : String} (hx : name ≠ x) (hnew : name ≠ r.name) :
    scopes.findIdx? (fun scope => ((r.undo x).scope scope).contains name) =
      scopes.findIdx? (·.contains name) := by
  simp only [undo_scope_other hx hnew]

lemma only_of_find? (h : List.Forall₂ (r.Marks x) origins scopes) {name : String}
    (hfind : origins.find? name = some r.number) : name = x := by
  induction h with
  | nil => simp [Origins.find?] at hfind
  | @cons bindings scope rest outer hmarks _ ih =>
    rw [Origins.find?] at hfind
    cases hget : bindings.get? name with
    | some number =>
      obtain rfl : number = r.number := by simpa [hget] using hfind
      exact hmarks.only name hget
    | none =>
      rw [hget, Option.none_or] at hfind
      exact ih hfind

lemma reference_undo (h : List.Forall₂ (r.Marks x) origins scopes) {target : Reference}
    (hnew : target.name.text ≠ r.name) :
    (r.undo x).reference (r.reference origins target) = target := by
  obtain ⟨i, text, line⟩ := target
  unfold reference
  split
  · rename_i hfind
    obtain rfl := only_of_find? h hfind
    simp [undo, Labels.reference, Labels.named]
  · simp only [Labels.reference, Labels.named, undo_other hnew]
    rfl

lemma reference_alike (h : List.Forall₂ (r.Marks x) origins scopes) {target : Reference}
    (hnew : target.name.text ≠ r.name) :
    (scopes.map (r.undo x).scope).findIdx?
        (·.contains ((r.undo x).name (r.reference origins target).name.text)) =
      scopes.findIdx? (·.contains (r.reference origins target).name.text) ∧
    ((r.undo x).name (r.reference origins target).name.text = (r.reference origins target).name.text ∨
      (scopes.findIdx? (·.contains (r.reference origins target).name.text)).isSome = true) := by
  rw [List.findIdx?_map]
  unfold reference
  split
  · rename_i hfind
    obtain hname := only_of_find? h hfind
    rw [hname] at hfind
    obtain ⟨heq, hsome⟩ := findIdx?_new h hfind
    simp only [undo_new]
    exact ⟨heq, .inr hsome⟩
  · rename_i hfind
    rw [undo_other hnew]
    refine ⟨?_, .inl rfl⟩
    by_cases hname : target.name.text = x
    · rw [hname] at hfind ⊢
      exact findIdx?_old h hfind
    · exact findIdx?_other hname hnew

section Declaring

variable {name : Name}

lemma named_undo (hname : name.text ≠ r.name) (hnumber : n = r.number → name.text = x) :
    (r.undo x).named (r.declared n name) = name := by
  obtain ⟨text, line⟩ := name
  unfold declared
  split
  · rename_i hn
    obtain rfl := hnumber hn
    simp [undo, Labels.named]
  · simp only [Labels.named, undo_other hname]
    rfl

lemma Marks.insert {bindings : Bindings Nat} {scope : Scope} (h : r.Marks x bindings scope)
    (hname : name.text ≠ r.name) (hnumber : n = r.number → name.text = x)
    (hnew : ((r.undo x).scope scope).contains name.text = false) (state : NameState) :
    r.Marks x (bindings.insert name.text n) (scope.insert (r.declared n name).text state) := by
  have hfree (heq : name.text = x) : bindings.get? x = none := by
    rw [heq] at hnew
    exact Option.not_isSome_iff_eq_none.mp (mt h.undo_old.mpr (by simp [hnew]))
  unfold declared
  split
  · rename_i hn
    have heq := hnumber hn
    have hold : scope.contains x = false := by
      rw [← Bool.not_eq_true, h.old, hfree heq]
      simp
    refine ⟨?_, ?_, fun other hother => ?_⟩
    · simp [Bindings.contains_insert, heq, hn]
    · rw [heq] at hname
      simp [Bindings.contains_insert, heq, hn, hname, hold]
    · rw [Bindings.get?_insert] at hother
      split at hother
      · rename_i hsame
        rw [hsame, heq]
      · exact h.only other hother
  · rename_i hn
    have hnewOld : name.text = x → scope.contains r.name = false := by
      intro heq
      rw [← Bool.not_eq_true, h.new, hfree heq]
      simp
    refine ⟨?_, ?_, fun other hother => ?_⟩
    · rw [Bindings.contains_insert, Bindings.get?_insert, Bool.or_eq_true, beq_iff_eq]
      by_cases heq : x = name.text
      · simp [heq, hn, Ne.symm hname, hnewOld heq.symm]
      · simp [heq, Ne.symm hname, h.new]
    · rw [Bindings.contains_insert, Bindings.get?_insert, Bool.or_eq_true, beq_iff_eq]
      by_cases heq : x = name.text
      · simp [heq, hn]
      · simp [heq, h.old]
    · rw [Bindings.get?_insert] at hother
      split at hother
      · exact absurd (Option.some.inj hother) hn
      · exact h.only other hother

lemma Marks.congr {bindings : Bindings Nat} {scope scope' : Scope} (h : r.Marks x bindings scope)
    (hsame : ∀ name, scope'.contains name = scope.contains name) : r.Marks x bindings scope' :=
  ⟨by rw [hsame, h.new], by rw [hsame, h.old], h.only⟩

lemma marks_declare (h : List.Forall₂ (r.Marks x) origins scopes)
    (hname : name.text ≠ r.name) (hnumber : n = r.number → name.text = x)
    (hclean : (Event.declare name (scopes.map (r.undo x).scope)).findings.violations = []) :
    List.Forall₂ (r.Marks x) (origins.declare n name)
        (Scope.declare (r.declared n name) scopes).2 ∧
      List.Forall₂ (r.Marks x) (origins.declare n name)
        (Scope.introduce (r.declared n name) scopes).2 := by
  cases h with
  | nil => exact ⟨.nil, .nil⟩
  | cons hmarks hrest =>
    have hinsert := hmarks.insert hname hnumber (Findings.violationIf_eq.mp hclean) .declared
    refine ⟨.cons hinsert hrest, .cons (hinsert.congr fun other => ?_) hrest⟩
    rw [Bindings.contains_insert, Bindings.contains_insert]
    cases other == (r.declared n name).text <;> simp

lemma parts_declare (hname : name.text ≠ r.name) (hnumber : n = r.number → name.text = x)
    (hclean : (Event.declare name (scopes.map (r.undo x).scope)).findings.violations = []) :
    (r.undo x).Parts [.declare ((r.undo x).named (r.declared n name))
      (scopes.map (r.undo x).scope)] := by
  rw [named_undo hname hnumber]
  exact .inr (by simpa using hclean)

lemma declare_scopes (hname : name.text ≠ r.name) (hnumber : n = r.number → name.text = x)
    (hclean : (Event.declare name (scopes.map (r.undo x).scope)).findings.violations = []) :
    (Scope.declare (r.declared n name) scopes).2.map (r.undo x).scope =
        (Scope.declare name (scopes.map (r.undo x).scope)).2 ∧
      (Scope.introduce (r.declared n name) scopes).2.map (r.undo x).scope =
        (Scope.introduce name (scopes.map (r.undo x).scope)).2 := by
  have hparts := parts_declare hname hnumber hclean
  have hdeclare := Scope.declare_relabel hparts
  have hdefine := Scope.define_relabel hparts
  rw [named_undo hname hnumber] at hdeclare hdefine
  exact ⟨hdeclare.symm, hdefine.symm⟩

lemma introductions_undo {params : List Name} (h : List.Forall₂ (r.Marks x) origins scopes)
    (hf : r.Fits x n (params.map fun param => ⟨param.text, true, true⟩))
    (hc : r.Clear (Scope.introductions params (scopes.map (r.undo x).scope))) :
    (r.declaredAll n params).map (r.undo x).named = params ∧
      List.Forall₂ (r.Marks x) (Origins.declareAll n params origins)
        (Scope.introduceAll (r.declaredAll n params) scopes).2 ∧
      (Scope.introduceAll (r.declaredAll n params) scopes).2.map (r.undo x).scope =
        (Scope.introduceAll params (scopes.map (r.undo x).scope)).2 := by
  induction params generalizing n origins scopes with
  | nil => exact ⟨rfl, h, rfl⟩
  | cons param params ih =>
    obtain ⟨hname, hvariable⟩ := hf.head
    have hnumber (hn : n = r.number) : param.text = x := (hvariable hn).1
    have hclean := hc.head.1
    have hscopes := (declare_scopes hname hnumber hclean).2
    have hrest := hc.tail
    rw [← hscopes] at hrest
    obtain ⟨hparams, hmarks, hafter⟩ := ih (marks_declare h hname hnumber hclean).2 hf.tail hrest
    refine ⟨?_, hmarks, ?_⟩
    · rw [declaredAll, List.map_cons, named_undo hname hnumber, hparams]
    · rw [declaredAll, Scope.introduceAll, Scope.introduceAll]
      dsimp only
      rw [hafter, hscopes]

end Declaring

end Scopes

end Renaming

end Lox
