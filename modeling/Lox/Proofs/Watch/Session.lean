import Lox.Proofs.Grammar.Acceptance
import Lox.Proofs.Identity.Session
import Lox.Proofs.Watch.Preservation

/-! Sessions under watch. At every moment of a session resolution and evaluation agree on where the
names that are used are bound. -/

namespace Lox

/-- A session, the journal of its runs, and the programs that have been run, the latest first. -/
structure WatchedSession where
  session : Session
  journal : Journal
  programs : List Program

namespace WatchedSession

def initial (limit : Option Nat) (reading : Nat → Float) : WatchedSession :=
  ⟨.initial limit reading, ⟨#[], #[], [], []⟩, []⟩

def withNextId (watched : WatchedSession) (nextId : Nat) : WatchedSession :=
  { watched with session.nextId := nextId }

/-- The watch on a session when entries are added to the table. -/
def watchWith (watched : WatchedSession) (distances : List Distance) : Watch where
  machine :=
    { watched.session.machine with table := watched.session.machine.table.extend distances }
  journal := watched.journal

def runBound (fuel : Nat) (watched : WatchedSession) (program : Program)
    (distances : List Distance) : Outcome × WatchedSession :=
  let (result, w) :=
    outcome (WatchedRun.executeProgram fuel .top program) (watched.watchWith distances)
  (.ofRun result,
    { session := { watched.session with machine := w.machine }
      journal := w.journal
      programs := program :: watched.programs })

def run (fuel : Nat) (watched : WatchedSession) (source : String) : Outcome × WatchedSession :=
  match Token.scan source with
  | .error errors => (.failure (.scan errors), watched)
  | .ok tokens =>
    let (parsed, nextId) := Program.parse tokens watched.session.nextId
    match parsed with
    | .error errors => (.failure (.parse errors), watched.withNextId nextId)
    | .ok program =>
      match Program.resolve program with
      | .error violations => (.failure (.resolve violations), watched.withNextId nextId)
      | .ok distances => (watched.withNextId nextId).runBound fuel program distances

def runAll (fuel : Nat) (watched : WatchedSession) : List String → List Outcome × WatchedSession
  | [] => ([], watched)
  | source :: rest =>
    let (outcome, watched) := watched.run fuel source
    let (outcomes, watched) := watched.runAll fuel rest
    (outcome :: outcomes, watched)

/-- The outcome and the session that is left, without what was written down. -/
def erase {α : Type} (result : α × WatchedSession) : α × Session :=
  (result.1, result.2.session)

lemma erase_runBound (fuel : Nat) (watched : WatchedSession) (program : Program)
    (distances : List Distance) :
    erase (watched.runBound fuel program distances) =
      watched.session.runBound fuel program distances := by
  have herases := WatchedRun.executeProgram_erases fuel .top program (watched.watchWith distances)
  have hid (result : Except Halt Unit) : result.map id = result := by cases result <;> rfl
  rw [hid] at herases
  rw [Session.runBound_eq]
  change _ = (Outcome.ofRun (outcome (Program.execute fuel program)
      (watched.watchWith distances).machine).1,
    { watched.session with machine :=
      (outcome (Program.execute fuel program) (watched.watchWith distances).machine).2 })
  rw [herases]
  rfl

lemma erase_run (fuel : Nat) (watched : WatchedSession) (source : String) :
    erase (watched.run fuel source) = watched.session.run fuel source := by
  unfold run Session.run
  cases Token.scan source with
  | error errors => rfl
  | ok tokens =>
    simp only [Session.runTokens]
    rcases Program.parse tokens watched.session.nextId with ⟨errors | program, nextId⟩
    · rfl
    · cases hresolve : Program.resolve program with
      | error violations => simp only [hresolve]; rfl
      | ok distances =>
        simp only [hresolve]
        exact erase_runBound fuel (watched.withNextId nextId) program distances

lemma erase_runAll (fuel : Nat) (watched : WatchedSession) (sources : List String) :
    erase (watched.runAll fuel sources) = watched.session.runAll fuel sources := by
  induction sources generalizing watched with
  | nil => rfl
  | cons source rest ih =>
    have hrun := erase_run fuel watched source
    have hrest := ih (watched.run fuel source).2
    simp only [erase] at hrun hrest
    simp only [erase, runAll, Session.runAll]
    rw [← hrun, ← hrest]

end WatchedSession

section Mono

variable {programs programs' : List Program} {f : Frames}

lemma Moment.Agrees.mono {moment : Moment} (h : moment.Agrees programs)
    (hsub : ∀ event, Accepted programs event → Accepted programs' event) :
    moment.Agrees programs' :=
  { h with visited := hsub _ h.visited }

lemma Moment.Assigns.mono {moment : Moment} (h : moment.Assigns programs)
    (hsub : ∀ event, Accepted programs event → Accepted programs' event) :
    moment.Assigns programs' :=
  { h with visited := hsub _ h.visited }

lemma Sound.mono {w : Watch} (h : Sound programs w)
    (hsub : ∀ event, Accepted programs event → Accepted programs' event) (table : BindingTable) :
    Sound programs' { w with machine.table := table } where
  nonempty := h.nonempty
  root := h.root
  sizeFunctions := h.sizeFunctions
  sizeClasses := h.sizeClasses
  functions i closure site hc hs := by
    have hfits := h.functions i closure site hc hs
    exact { hfits with accepted := fun event he => hsub event (hfits.accepted event he) }
  classes i type site hc hs := by
    have hfits := h.classes i type site hc hs
    refine ⟨hfits.stands, fun name method hm => ?_⟩
    have hmethod := hfits.methods name method hm
    exact { hmethod with accepted := fun event he => hsub event (hmethod.accepted event he) }
  moments moment hm := (h.moments moment hm).mono hsub
  assignments moment hm := (h.assignments moment hm).mono hsub

end Mono

namespace WatchedSession

/-- What is so of a session between two programs. -/
structure Keeps (watched : WatchedSession) : Prop where
  sound : Sound watched.programs ⟨watched.session.machine, watched.journal⟩
  ruled : Ruled watched.programs watched.session.machine.table
  current : watched.session.machine.current = .globals
  fresh : ∀ i, watched.session.nextId ≤ i → watched.session.machine.table[i]? = none
  taken : ∀ v, Accepted watched.programs (.visit v) → ∀ i name, v.node.use? = some (i, name) →
    i < watched.session.nextId
  resolved : ∀ program ∈ watched.programs,
    Program.resolve program = .ok (Findings.ofEvents (Program.events program)).distances

lemma keeps_initial (limit : Option Nat) (reading : Nat → Float) : (initial limit reading).Keeps where
  sound :=
    { nonempty := by simp [initial, Session.initial, Machine.initial, Frames.initial, FrameRef.globals]
      root := (Frames.enclosing?_define ..).trans rfl
      sizeFunctions := rfl
      sizeClasses := rfl
      functions := by simp [initial, Session.initial, Machine.initial]
      classes := by simp [initial, Session.initial, Machine.initial]
      moments := by simp [initial]
      assignments := by simp [initial] }
  ruled := ⟨by simp [initial, Accepted], by simp [initial, Accepted]⟩
  current := rfl
  fresh i _ := by simp [initial, Session.initial, Machine.initial]
  taken := by simp [initial, Accepted]
  resolved := by simp [initial]

variable {watched : WatchedSession}

lemma Keeps.withNextId (h : watched.Keeps) {n : Nat} (hn : watched.session.nextId ≤ n) :
    (watched.withNextId n).Keeps where
  sound := h.sound
  ruled := h.ruled
  current := h.current
  fresh i hi := h.fresh i (Nat.le_trans hn hi)
  taken v hv i name hu := Nat.lt_of_lt_of_le (h.taken v hv i name hu) hn
  resolved := h.resolved

section Accepting

variable {program : Program} {distances : List Distance} {n m : Nat}

lemma id_of_visit (ht : Takes n (Stmt.idsAll program) m) {v : Visit}
    (hv : .visit v ∈ Program.events program) {i : Nat} {name : String}
    (hu : v.node.use? = some (i, name)) : n ≤ i ∧ i < m := by
  have hid : (Event.visit v).id? = some i := by simp [Event.id?, hu]
  have hmem : i ∈ Event.ids (Program.events program) := List.mem_filterMap.mpr ⟨_, hv, hid⟩
  exact ht.mem_iff.mp ((Stmt.ids_eventsAll _ _ program).mem_iff.mp hmem)

lemma id_of_distance (ht : Takes n (Stmt.idsAll program) m)
    (hr : Program.resolve program = .ok distances) {entry : Distance} (he : entry ∈ distances) :
    n ≤ entry.1 ∧ entry.1 < m := by
  obtain ⟨-, rfl⟩ := Program.resolve_eq_ok_iff.mp hr
  obtain ⟨event, hevent, hentry⟩ := Findings.mem_distances_ofEvents.mp he
  have hmem : entry.1 ∈ Event.ids (Program.events program) :=
    List.mem_filterMap.mpr ⟨event, hevent, Event.id?_of_mem_distances hentry⟩
  exact ht.mem_iff.mp ((Stmt.ids_eventsAll _ _ program).mem_iff.mp hmem)

lemma accepted_cons {programs : List Program} {event : Event} :
    Accepted (program :: programs) event ↔
      event ∈ Program.events program ∨ Accepted programs event := by
  simp [Accepted]

lemma Keeps.ruled_cons (h : watched.Keeps) (ht : Takes watched.session.nextId (Stmt.idsAll program) m)
    (hr : Program.resolve program = .ok distances) :
    Ruled (program :: watched.programs) (watched.session.machine.table.extend distances) := by
  refine ⟨fun event he => ?_, fun v hv => ?_⟩
  · rcases accepted_cons.mp he with he | he
    · exact (Program.resolve_eq_ok_iff.mp hr).1 event he
    · exact h.ruled.clean event he
  · rcases accepted_cons.mp hv with hv | hv
    · have hfresh : ∀ i ∈ Stmt.idsAll program, watched.session.machine.table[i]? = none :=
        fun i hi => h.fresh i (ht.mem_iff.mp hi).1
      exact Program.agrees_extend hr ht.nodup hfresh hv
    · intro i name hu
      have hi := h.taken v hv i name hu
      rw [BindingTable.getElem?_extend_of_notMem, h.ruled.entries v hv i name hu]
      intro distance hd
      have hlt := (id_of_distance ht hr hd).1
      exact absurd hi (Nat.not_lt.mpr hlt)

lemma Keeps.runBound (h : watched.Keeps) (fuel : Nat)
    (ht : Takes watched.session.nextId (Stmt.idsAll program) m) (hp : Stmt.ProperAll program)
    (hr : Program.resolve program = .ok distances) :
    ((watched.withNextId m).runBound fuel program distances).2.Keeps := by
  have hruled := h.ruled_cons ht hr
  have hsub (event : Event) (he : Accepted watched.programs event) :
      Accepted (program :: watched.programs) event := accepted_cons.mpr (.inr he)
  have hsound : Sound (program :: watched.programs)
      ((watched.withNextId m).watchWith distances) := h.sound.mono hsub _
  obtain ⟨hadvances, -⟩ := WatchedRun.executeProgram_safe fuel hsound hruled h.current hp
    fun event he => accepted_cons.mpr (.inl he)
  refine ⟨hadvances.sound, ?_, hadvances.current.trans h.current, fun i hi => ?_,
    fun v hv i name hu => ?_, ?_⟩
  · rw [WatchedSession.runBound, hadvances.table]
    exact hruled
  · have hle : watched.session.nextId ≤ i := Nat.le_trans ht.1 hi
    rw [WatchedSession.runBound, hadvances.table]
    change (watched.session.machine.table.extend distances)[i]? = none
    rw [BindingTable.getElem?_extend_of_notMem, h.fresh i hle]
    intro distance hd
    have hlt := (id_of_distance ht hr hd).2
    exact absurd hlt (Nat.not_lt.mpr hi)
  · rcases accepted_cons.mp hv with hv | hv
    · exact (id_of_visit ht hv hu).2
    · exact Nat.lt_of_lt_of_le (h.taken v hv i name hu) ht.1
  · refine List.forall_mem_cons.mpr ⟨?_, h.resolved⟩
    rw [hr, (Program.resolve_eq_ok_iff.mp hr).2]

end Accepting

lemma Keeps.run (h : watched.Keeps) (fuel : Nat) (source : String) :
    (watched.run fuel source).2.Keeps := by
  unfold WatchedSession.run
  cases hs : Token.scan source with
  | error errors => exact h
  | ok tokens =>
    have hle : watched.session.nextId ≤ (Program.parse tokens watched.session.nextId).2 := by
      rw [Session.parse_at]
      exact Nat.le_add_left ..
    rcases hparse : Program.parse tokens watched.session.nextId with ⟨errors | program, nextId⟩ <;>
      rw [hparse] at hle <;> simp only [hparse]
    · exact h.withNextId hle
    · have hderives := Parser.parse_sound hparse
      have hproper : Stmt.ProperAll program := hderives.proper fun t ht =>
        Token.wellSpelt_of_scan hs ((List.takeWhile_sublist _).subset ht)
      cases hresolve : Program.resolve program with
      | error violations => exact h.withNextId hle
      | ok distances => exact h.runBound fuel hderives.takes hproper hresolve

lemma Keeps.runAll (h : watched.Keeps) (fuel : Nat) (sources : List String) :
    (watched.runAll fuel sources).2.Keeps := by
  induction sources generalizing watched with
  | nil => exact h
  | cons source rest ih => exact ih (h.run fuel source)

/-- Source texts run one after another: under watch they run as they do without, and the programs among
them that are run are those in which resolution finds no violation. Every time one of their
expressions is evaluated, in whichever of them and however late, there are as many frames outward as
there were scopes when resolution came to it; a name that is read is bound where resolution found
it, and so are the superclass and the instance for `super`. -/
theorem moments_agree (fuel : Nat) (limit : Option Nat) (reading : Nat → Float)
    (sources : List String) :
    erase ((initial limit reading).runAll fuel sources) =
        (Session.initial limit reading).runAll fuel sources ∧
      (∀ program ∈ ((initial limit reading).runAll fuel sources).2.programs,
        Program.resolve program = .ok (Findings.ofEvents (Program.events program)).distances) ∧
      ∀ moment ∈ ((initial limit reading).runAll fuel sources).2.journal.moments,
        moment.Agrees ((initial limit reading).runAll fuel sources).2.programs := by
  have hkeeps := (keeps_initial limit reading).runAll fuel sources
  exact ⟨erase_runAll fuel (initial limit reading) sources, hkeeps.resolved, hkeeps.sound.moments⟩

/-- Source texts run one after another: every time a variable with an entry is about to be assigned,
the assignment is made in the frame at its distance exactly if the variable is not one that is
being defined in the innermost scope, that is, if the assignment is not in its own initial value. -/
theorem assignments_made (fuel : Nat) (limit : Option Nat) (reading : Nat → Float)
    (sources : List String) :
    erase ((initial limit reading).runAll fuel sources) =
        (Session.initial limit reading).runAll fuel sources ∧
      ∀ moment ∈ ((initial limit reading).runAll fuel sources).2.journal.assignments,
        moment.Assigns ((initial limit reading).runAll fuel sources).2.programs := by
  have hkeeps := (keeps_initial limit reading).runAll fuel sources
  exact ⟨erase_runAll fuel (initial limit reading) sources, hkeeps.sound.assignments⟩

/-- An assignment in the initial value of its own variable: it has an entry, and is refused. -/
theorem assignment_refused :
    let ended := (initial none fun _ => 0).run 9 "\x7b var a = a = nil; print a; \x7d"
    (ended.1, ended.2.journal.assignments.map fun moment =>
        (moment.node.use?, moment.machine.table[0]?,
          moment.machine.frames.assignAt? moment.machine.current 0 "a" .nil)) =
      (.failure (.runtime ⟨.undefinedVariable "a", 1⟩), [(some (0, "a"), some 0, none)]) := by
  cbv

end WatchedSession

end Lox
