import Lox.Proofs.Identity.Distinct
import Lox.Proofs.Session.Restored
import Lox.Proofs.Session.Source
import Lox.Proofs.Watch.Session

/-! Uses of names keep their identities, and their entries in the binding table, for the life of a
session. -/

namespace Lox

/-- The closure is one of a function, or of a method of a class. -/
def Machine.Stores (m : Machine) (closure : Closure) : Prop :=
  closure ∈ m.functions ∨ ∃ type ∈ m.classes, ∃ name, type.methods.get? name = some closure

namespace WatchedSession

variable {watched : WatchedSession}

lemma Keeps.ids_lt (h : watched.Keeps) {decl : FunctionDecl} {context : Context}
    {scopes : List Scope}
    (haccepted : ∀ event ∈ decl.events context scopes, Accepted watched.programs event) {i : Nat}
    (hi : i ∈ decl.ids) : i < watched.session.nextId := by
  have hids := (decl.ids_events context scopes).mem_iff.mpr hi
  obtain ⟨event, hevent, hid⟩ := List.mem_filterMap.mp hids
  cases event with
  | declare | ret | inherit => simp [Event.id?] at hid
  | visit v =>
    obtain ⟨entry, hu, rfl⟩ := Option.map_eq_some_iff.mp hid
    exact h.taken v (haccepted _ hevent) entry.1 entry.2 hu

lemma Keeps.stored_lt (h : watched.Keeps) {closure : Closure}
    (hc : watched.session.machine.Stores closure) {i : Nat} (hi : i ∈ closure.decl.ids) :
    i < watched.session.nextId := by
  rcases hc with hc | ⟨type, ht, name, hm⟩
  · obtain ⟨k, hk, hget⟩ := Array.mem_iff_getElem.mp hc
    have hsite : k < watched.journal.functions.size := by
      rw [h.sound.sizeFunctions]
      exact hk
    have hfits := h.sound.functions k closure watched.journal.functions[k]
      (Array.getElem?_eq_some_iff.mpr ⟨hk, hget⟩) (Array.getElem?_eq_getElem hsite)
    exact h.ids_lt hfits.accepted hi
  · obtain ⟨k, hk, hget⟩ := Array.mem_iff_getElem.mp ht
    have hsite : k < watched.journal.classes.size := by
      rw [h.sound.sizeClasses]
      exact hk
    have hfits := h.sound.classes k type watched.journal.classes[k]
      (Array.getElem?_eq_some_iff.mpr ⟨hk, hget⟩) (Array.getElem?_eq_getElem hsite)
    exact h.ids_lt (hfits.methods name closure hm).accepted hi

end WatchedSession

namespace Session

variable {fuel i : Nat} {session : Session}

lemma table_run (hi : i < session.nextId) (source : String) :
    (session.run fuel source).2.machine.table[i]? = session.machine.table[i]? := by
  rcases session.run_cases fuel source with ⟨n, -, hn⟩ | ⟨program, n, distances, hsource⟩
  · rw [hn]
  · have hfresh (distance : Nat) : (i, distance) ∉ distances := by
      rw [Program.distances_of_resolve (Program.resolve_of_source hsource)]
      intro hmem
      have hkey : i ∈ program.keys := List.mem_map_of_mem hmem
      have hid := (Program.takes_of_source hsource).mem_iff.mp (program.keys_subperm.subset hkey)
      omega
    rw [run_of_source fuel hsource, runBound_eq]
    simp only [(Run.program_restores fuel program _).table]
    exact BindingTable.getElem?_extend_of_notMem hfresh _

lemma table_runAll (hi : i < session.nextId) (sources : List String) :
    (session.runAll fuel sources).2.machine.table[i]? = session.machine.table[i]? := by
  induction sources generalizing session with
  | nil => rfl
  | cons source rest ih =>
    have hle : session.nextId ≤ (session.run fuel source).2.nextId := by
      rw [nextId_run]
      exact Nat.le_add_right ..
    exact (ih (Nat.lt_of_lt_of_le hi hle)).trans (table_run hi source)

/-- What is parsed from one supply of identities has no identity twice, within a program or across
programs, whatever fails to be parsed between them. So no two entries that resolution writes are for one
identity, and later entries leave the earlier ones as they are. In a session, a function of an earlier
program keeps its entries, and it gets no new ones. -/
theorem identities_last :
    (∀ (n : Nat) (inputs : List (List Token)),
        ((Program.trees n inputs).flatMap Stmt.idsAll).Nodup) ∧
      (∀ (n : Nat) (inputs : List (List Token)),
        ((Program.trees n inputs).flatMap Program.keys).Nodup) ∧
      (∀ (program : Program) (distances : List Distance),
        Program.resolve program = .ok distances → distances.map Prod.fst = program.keys) ∧
      (∀ (n : Nat) (inputs rest : List (List Token)) (i distance : Nat),
        (BindingTable.extendAll ∅ (Program.trees n inputs))[i]? = some distance →
          (BindingTable.extendAll ∅ (Program.trees n (inputs ++ rest)))[i]? = some distance) ∧
      ∀ (fuel fuel' : Nat) (limit : Option Nat) (reading : Nat → Float) (sources rest : List String),
        let session := ((initial limit reading).runAll fuel sources).2
        let later := (session.runAll fuel' rest).2
        (∀ i distance : Nat, session.machine.table[i]? = some distance →
            later.machine.table[i]? = some distance) ∧
          ∀ closure, session.machine.Stores closure → ∀ i ∈ closure.decl.ids,
            later.machine.table[i]? = session.machine.table[i]? := by
  refine ⟨fun n inputs => (Program.trees_spend n inputs).nodup, Program.keys_nodup,
    fun program distances h => by rw [Program.distances_of_resolve h]; rfl,
    fun n inputs rest i distance h => BindingTable.getElem?_extendAll_trees h rest, ?_⟩
  intro fuel fuel' limit reading sources rest session later
  have hkeeps := (WatchedSession.keeps_initial limit reading).runAll fuel sources
  have herase := WatchedSession.erase_runAll fuel (.initial limit reading) sources
  have hsession :
      ((WatchedSession.initial limit reading).runAll fuel sources).2.session = session :=
    congrArg Prod.snd herase
  constructor
  · intro i distance hentry
    have hlt : i < session.nextId := by
      by_contra hle
      have hnone := hkeeps.fresh i (by rw [hsession]; omega)
      rw [hsession, hentry] at hnone
      simp at hnone
    exact (table_runAll hlt rest).trans hentry
  · intro closure hstores i hi
    have hlt := hkeeps.stored_lt (by rwa [hsession]) hi
    rw [hsession] at hlt
    exact table_runAll hlt rest

end Session

end Lox
