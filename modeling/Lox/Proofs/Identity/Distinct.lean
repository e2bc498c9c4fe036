import Lox.Proofs.Identity.Session
import Lox.Proofs.Scope.Entries

/-! Programs parsed one after another from one supply of identities. No two uses of names in them share
an identity, so the entries that resolution finds for one program are none of another's. -/

namespace Lox

/-- What resolution finds out about a program, whether or not it accepts it. -/
def Program.findings (program : Program) : Findings :=
  (Stmt.resolveAll ⟨.none, .none⟩ [] program).1

/-- The identities for which resolution writes an entry, in the order of writing. -/
def Program.keys (program : Program) : List Nat :=
  program.findings.distances.map Prod.fst

/-- Parses inputs one after another, each from the first identity that those before it leave, failed
ones among them. -/
def Program.parseAll (n : Nat) : List (List Token) → List (Except (List ParseError) Program) × Nat
  | [] => ([], n)
  | tokens :: rest =>
    let (parsed, next) := Program.parse tokens n
    let (others, last) := Program.parseAll next rest
    (parsed :: others, last)

/-- The trees of the inputs that are parsed. -/
def Program.trees (n : Nat) (inputs : List (List Token)) : List Program :=
  (Program.parseAll n inputs).1.filterMap Except.toOption

/-- The table with the entries of those programs that resolution accepts. -/
def BindingTable.extendAll (table : BindingTable) : List Program → BindingTable
  | [] => table
  | program :: rest =>
    match Program.resolve program with
    | .ok distances => (table.extend distances).extendAll rest
    | .error _ => table.extendAll rest

section Parsing

/-- The identities are some of those from `n` on up to `m`, none of them twice. -/
structure Spends (n : Nat) (ids : List Nat) (m : Nat) : Prop where
  le : n ≤ m
  nodup : ids.Nodup
  bounds : ∀ i ∈ ids, n ≤ i ∧ i < m

lemma Takes.spends {n m : Nat} {ids : List Nat} (h : Takes n ids m) : Spends n ids m :=
  ⟨h.1, h.nodup, fun _ hi => h.mem_iff.mp hi⟩

lemma spends_nil {n m : Nat} (h : n ≤ m) : Spends n [] m :=
  ⟨h, List.nodup_nil, by simp⟩

lemma Spends.append {n k m : Nat} {is js : List Nat} (h : Spends n is k) (h' : Spends k js m) :
    Spends n (is ++ js) m := by
  have hle := h.le
  have hle' := h'.le
  refine ⟨by omega, List.nodup_append.mpr ⟨h.nodup, h'.nodup, fun i hi j hj => ?_⟩, fun i hi => ?_⟩
  · have := h.bounds i hi
    have := h'.bounds j hj
    omega
  · rcases List.mem_append.mp hi with hi | hi
    · have := h.bounds i hi
      omega
    · have := h'.bounds i hi
      omega

namespace Program

/-- An input that is not parsed has no tree, and what it takes is not given back. -/
lemma parse_spends (tokens : List Token) (n : Nat) :
    Spends n (((parse tokens n).1.toOption.toList).flatMap Stmt.idsAll) (parse tokens n).2 := by
  rcases hparse : parse tokens n with ⟨errors | program, m⟩
  · have hle : n ≤ (parse tokens n).2 := by
      rw [Session.parse_at]
      exact Nat.le_add_left ..
    rw [hparse] at hle
    exact spends_nil hle
  · have htakes : Takes n (Stmt.idsAll program) m := (Parser.parse_sound hparse).takes
    simpa [Except.toOption] using htakes.spends

lemma trees_cons (n : Nat) (tokens : List Token) (rest : List (List Token)) :
    trees n (tokens :: rest) =
      (parse tokens n).1.toOption.toList ++ trees (parse tokens n).2 rest := by
  rcases hparse : parse tokens n with ⟨errors | program, m⟩ <;>
    simp [trees, parseAll, hparse, Except.toOption, List.filterMap_cons]

lemma trees_append (n : Nat) (inputs rest : List (List Token)) :
    trees n (inputs ++ rest) = trees n inputs ++ trees (parseAll n inputs).2 rest := by
  induction inputs generalizing n with
  | nil => rfl
  | cons tokens inputs ih => simp only [List.cons_append, trees_cons, ih, List.append_assoc]; rfl

lemma trees_spend (n : Nat) (inputs : List (List Token)) :
    Spends n ((trees n inputs).flatMap Stmt.idsAll) (parseAll n inputs).2 := by
  induction inputs generalizing n with
  | nil => exact spends_nil (Nat.le_refl n)
  | cons tokens rest ih =>
    rw [trees_cons, List.flatMap_append]
    exact (parse_spends tokens n).append (ih _)

end Program

end Parsing

section Resolving

open Findings

lemma Findings.keys_bound (scopes : List Scope) (i : Nat) (name : String) :
    ((bound scopes i name).distances.map Prod.fst).Sublist [i] := by
  unfold bound
  split
  · exact List.Sublist.refl _
  · exact List.nil_sublist _

lemma Event.keys_findings (event : Event) :
    (event.findings.distances.map Prod.fst).Sublist event.id?.toList := by
  cases event with
  | declare name scopes =>
    cases scopes with
    | nil => exact List.nil_sublist _
    | cons scope outer => simp [findings, Scope.declare]
  | ret context keyword value => simp [findings]
  | inherit name superclass => simp [findings]
  | visit v =>
    obtain ⟨node, context, scopes⟩ := v
    cases node with
    | read target =>
      simpa [findings, Visit.findings, Reference.resolveRead, id?, Expr.use?] using
        keys_bound scopes target.id target.name.text
    | assign target value => exact keys_bound scopes target.id target.name.text
    | this keyword =>
      simp only [findings, Visit.findings, Expr.resolve]
      split
      · exact List.nil_sublist _
      · exact keys_bound scopes keyword.id Scope.thisName
    | super keyword method =>
      simpa [findings, Visit.findings, Expr.resolve, id?, Expr.use?] using
        keys_bound scopes keyword.id Scope.superName
    | literal | grouping | unary | binary | logical | call | get | set => exact List.nil_sublist _

lemma Findings.keys_ofEvents (es : List Event) :
    ((ofEvents es).distances.map Prod.fst).Sublist (Event.ids es) := by
  induction es with
  | nil => exact List.nil_sublist _
  | cons event rest ih =>
    have hsplit : Event.ids (event :: rest) = event.id?.toList ++ Event.ids rest := by
      cases h : event.id? <;> simp [Event.ids, h]
    rw [ofEvents, distances_append, List.map_append, hsplit]
    exact event.keys_findings.append ih

namespace Program

lemma findings_eq_ofEvents (program : Program) :
    program.findings = ofEvents (Program.events program) :=
  Stmt.resolveAll_eq_ofEvents _ _ program

lemma keys_subperm (program : Program) : List.Subperm program.keys (Stmt.idsAll program) := by
  have hkeys := keys_ofEvents (Program.events program)
  rw [← findings_eq_ofEvents] at hkeys
  exact hkeys.subperm.trans (Stmt.ids_eventsAll _ _ program).subperm

lemma keys_subperm_all (programs : List Program) :
    List.Subperm (programs.flatMap keys) (programs.flatMap Stmt.idsAll) := by
  induction programs with
  | nil => exact List.Subperm.refl _
  | cons program rest ih =>
    simp only [List.flatMap_cons]
    exact program.keys_subperm.append ih

lemma keys_nodup (n : Nat) (inputs : List (List Token)) :
    ((trees n inputs).flatMap keys).Nodup := by
  obtain ⟨ids, hperm, hsublist⟩ := keys_subperm_all (trees n inputs)
  exact hperm.nodup_iff.mp (hsublist.nodup (trees_spend n inputs).nodup)

lemma distances_of_resolve {program : Program} {distances : List Distance}
    (h : Program.resolve program = .ok distances) : distances = program.findings.distances := by
  rw [findings_eq_ofEvents]
  exact (Program.resolve_eq_ok_iff.mp h).2

end Program

end Resolving

namespace BindingTable

lemma extendAll_append (table : BindingTable) (programs rest : List Program) :
    table.extendAll (programs ++ rest) = (table.extendAll programs).extendAll rest := by
  induction programs generalizing table with
  | nil => rfl
  | cons program programs ih =>
    simp only [List.cons_append, extendAll]
    split <;> exact ih _

lemma getElem?_extendAll {programs : List Program} {i : Nat}
    (h : i ∉ programs.flatMap Program.keys) (table : BindingTable) :
    (table.extendAll programs)[i]? = table[i]? := by
  induction programs generalizing table with
  | nil => rfl
  | cons program rest ih =>
    simp only [List.flatMap_cons, List.mem_append, not_or] at h
    cases hresolve : Program.resolve program with
    | error violations =>
      simp only [extendAll, hresolve]
      exact ih h.2 table
    | ok distances =>
      have hnone (distance : Nat) : (i, distance) ∉ distances := by
        rw [Program.distances_of_resolve hresolve]
        exact fun hmem => h.1 (List.mem_map_of_mem hmem)
      simp only [extendAll, hresolve]
      rw [ih h.2, getElem?_extend_of_notMem hnone]

/-- Whatever is parsed later, the entries of the programs parsed before it stay. -/
lemma getElem?_extendAll_trees {n i distance : Nat} {inputs : List (List Token)}
    (h : (extendAll ∅ (Program.trees n inputs))[i]? = some distance) (rest : List (List Token)) :
    (extendAll ∅ (Program.trees n (inputs ++ rest)))[i]? = some distance := by
  have hkeys := Program.keys_nodup n (inputs ++ rest)
  rw [Program.trees_append] at hkeys ⊢
  rw [List.flatMap_append, List.nodup_append] at hkeys
  have hbefore : i ∈ (Program.trees n inputs).flatMap Program.keys := by
    by_contra hnot
    rw [getElem?_extendAll hnot] at h
    simp at h
  rw [extendAll_append, getElem?_extendAll fun hafter => hkeys.2.2 i hbefore i hafter rfl]
  exact h

end BindingTable

end Lox
