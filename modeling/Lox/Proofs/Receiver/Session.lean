import Lox.Proofs.Receiver.Preservation
import Lox.Proofs.Watch.Session

/-! Sessions on record. Whenever a program of a session evaluates `this` or `super`, it means the
receiver for whom the code runs. -/

namespace Lox

/-- A session, for whom its functions run, what its classes were made from, and the evaluations of
expressions that were begun in it, the latest first. -/
structure RecordedSession where
  session : Session
  receivers : Array (Option Receiver)
  made : Array Made
  occasions : List Occasion

namespace RecordedSession

def initial (limit : Option Nat) (reading : Nat → Float) : RecordedSession :=
  ⟨.initial limit reading, #[], #[], []⟩

def withNextId (recorded : RecordedSession) (nextId : Nat) : RecordedSession :=
  { recorded with session.nextId := nextId }

/-- The record of a session when entries are added to the table. -/
def recordWith (recorded : RecordedSession) (distances : List Distance) : Record where
  machine :=
    { recorded.session.machine with table := recorded.session.machine.table.extend distances }
  receivers := recorded.receivers
  made := recorded.made
  occasions := recorded.occasions

def runBound (fuel : Nat) (recorded : RecordedSession) (program : Program)
    (distances : List Distance) : Outcome × RecordedSession :=
  let (result, t) := outcome (RecordedRun.executeProgram fuel program) (recorded.recordWith distances)
  (.ofRun result,
    { session := { recorded.session with machine := t.machine }
      receivers := t.receivers
      made := t.made
      occasions := t.occasions })

def run (fuel : Nat) (recorded : RecordedSession) (source : String) : Outcome × RecordedSession :=
  match Token.scan source with
  | .error errors => (.failure (.scan errors), recorded)
  | .ok tokens =>
    let (parsed, nextId) := Program.parse tokens recorded.session.nextId
    match parsed with
    | .error errors => (.failure (.parse errors), recorded.withNextId nextId)
    | .ok program =>
      match Program.resolve program with
      | .error violations => (.failure (.resolve violations), recorded.withNextId nextId)
      | .ok distances => (recorded.withNextId nextId).runBound fuel program distances

def runAll (fuel : Nat) (recorded : RecordedSession) :
    List String → List Outcome × RecordedSession
  | [] => ([], recorded)
  | source :: rest =>
    let (outcome, recorded) := recorded.run fuel source
    let (outcomes, recorded) := recorded.runAll fuel rest
    (outcome :: outcomes, recorded)

/-- The outcome and the session that is left, without the record. -/
def erase {α : Type} (result : α × RecordedSession) : α × Session :=
  (result.1, result.2.session)

end RecordedSession

/-- What is so between two programs of a session that is watched and recorded. -/
structure Kept (watched : WatchedSession) (recorded : RecordedSession) : Prop where
  keeps : watched.Keeps
  closed : watched.session.machine.Closed
  session : recorded.session = watched.session
  tied : Tied ⟨watched.session.machine, watched.journal⟩
    ⟨watched.session.machine, recorded.receivers, recorded.made, recorded.occasions⟩

namespace Kept

variable {watched : WatchedSession} {recorded : RecordedSession}

lemma initial (limit : Option Nat) (reading : Nat → Float) :
    Kept (.initial limit reading) (.initial limit reading) where
  keeps := WatchedSession.keeps_initial limit reading
  closed := Machine.Closed.initial limit reading
  session := rfl
  tied :=
    { machine := rfl
      sizeReceivers := rfl
      sizeMade := rfl
      functions := by
        simp [WatchedSession.initial, Session.initial, Machine.initial]
      classes := by
        simp [WatchedSession.initial, Session.initial, Machine.initial]
      occasions := by simp [RecordedSession.initial] }

lemma withNextId (h : Kept watched recorded) {n : Nat} (hn : watched.session.nextId ≤ n) :
    Kept (watched.withNextId n) (recorded.withNextId n) where
  keeps := h.keeps.withNextId hn
  closed := h.closed
  session := congrArg (fun session : Session => { session with nextId := n }) h.session
  tied := h.tied

lemma runBound (h : Kept watched recorded) (fuel : Nat) {program : Program} {m : Nat}
    {distances : List Distance} (ht : Takes watched.session.nextId (Stmt.idsAll program) m)
    (hp : Stmt.ProperAll program) (hr : Program.resolve program = .ok distances) :
    ((recorded.withNextId m).runBound fuel program distances).1 =
        ((watched.withNextId m).runBound fuel program distances).1 ∧
      Kept ((watched.withNextId m).runBound fuel program distances).2
        ((recorded.withNextId m).runBound fuel program distances).2 := by
  obtain ⟨session, receivers, made, occasions⟩ := recorded
  obtain rfl : session = watched.session := h.session
  have hsound : Sound (program :: watched.programs) ((watched.withNextId m).watchWith distances) :=
    h.keeps.sound.mono (fun event he => WatchedSession.accepted_cons.mpr (.inr he)) _
  have hclosed : ((watched.withNextId m).watchWith distances).machine.Closed :=
    h.closed.grows (.of_eq rfl rfl rfl) rfl rfl rfl
  have htied : Tied ((watched.withNextId m).watchWith distances)
      (RecordedSession.recordWith ⟨{ watched.session with nextId := m }, receivers, made, occasions⟩
        distances) :=
    ⟨rfl, h.tied.sizeReceivers, h.tied.sizeMade, h.tied.functions, h.tied.classes, h.tied.occasions⟩
  obtain ⟨hresult, hstates⟩ := executeProgram_attends fuel hsound (h.keeps.ruled_cons ht hr) hclosed
    h.keeps.current hp (fun event he => WatchedSession.accepted_cons.mpr (.inl he)) htied
  have herases := WatchedRun.executeProgram_erases fuel .top program
    ((watched.withNextId m).watchWith distances)
  have hcloses := (Run.program_closes fuel program hclosed).closed
  rw [herases] at hcloses
  have hsame : ∀ result : Except Halt Unit, counterpart id id result = result := by
    rintro (_ | _) <;> rfl
  rw [hsame] at hresult
  refine ⟨congrArg Outcome.ofRun hresult, h.keeps.runBound fuel ht hp hr, hcloses, ?_, ?_⟩
  · exact congrArg (fun machine => { watched.session with nextId := m, machine }) hstates.machine
  · exact ⟨rfl, hstates.sizeReceivers, hstates.sizeMade, hstates.functions, hstates.classes,
      hstates.occasions⟩

lemma run (h : Kept watched recorded) (fuel : Nat) (source : String) :
    (recorded.run fuel source).1 = (watched.run fuel source).1 ∧
      Kept (watched.run fuel source).2 (recorded.run fuel source).2 := by
  unfold RecordedSession.run WatchedSession.run
  rw [h.session]
  cases hs : Token.scan source with
  | error errors => exact ⟨rfl, h⟩
  | ok tokens =>
    have hle : watched.session.nextId ≤ (Program.parse tokens watched.session.nextId).2 := by
      rw [Session.parse_at]
      exact Nat.le_add_left ..
    rcases hparse : Program.parse tokens watched.session.nextId with ⟨errors | program, nextId⟩ <;>
      rw [hparse] at hle <;> simp only [hparse]
    · exact ⟨trivial, h.withNextId hle⟩
    · have hderives := Parser.parse_sound hparse
      have hproper : Stmt.ProperAll program := hderives.proper fun t ht =>
        Token.wellSpelt_of_scan hs ((List.takeWhile_sublist _).subset ht)
      cases hresolve : Program.resolve program with
      | error violations => exact ⟨rfl, h.withNextId hle⟩
      | ok distances => exact h.runBound fuel hderives.takes hproper hresolve

lemma runAll (h : Kept watched recorded) (fuel : Nat) (sources : List String) :
    (recorded.runAll fuel sources).1 = (watched.runAll fuel sources).1 ∧
      Kept (watched.runAll fuel sources).2 (recorded.runAll fuel sources).2 := by
  induction sources generalizing watched recorded with
  | nil => exact ⟨rfl, h⟩
  | cons source rest ih =>
    obtain ⟨houtcome, hrun⟩ := h.run fuel source
    obtain ⟨houtcomes, hrest⟩ := ih hrun
    exact ⟨congrArg₂ List.cons houtcome houtcomes, hrest⟩

end Kept

/-- Source texts run one after another: on record they run as they do without. Whenever one of them
evaluates `this`, in a method or in a function in one, and however that was called, it is the instance
to which the method was bound. Whenever one evaluates `super`, the class that is searched is the one that
the name of the superclass came to in the declaration of the method's class, and what is found is the
first method of the name from that class upward, bound to the same instance, or an undefined
property. -/
theorem RecordedSession.occasions_mean (fuel : Nat) (limit : Option Nat) (reading : Nat → Float)
    (sources : List String) :
    erase ((initial limit reading).runAll fuel sources) =
        (Session.initial limit reading).runAll fuel sources ∧
      ∀ occasion ∈ ((initial limit reading).runAll fuel sources).2.occasions, occasion.Means := by
  obtain ⟨houtcomes, hkept⟩ := (Kept.initial limit reading).runAll fuel sources
  refine ⟨?_, hkept.tied.occasions⟩
  have herase := WatchedSession.erase_runAll fuel (.initial limit reading) sources
  rw [show (WatchedSession.initial limit reading).session = Session.initial limit reading from rfl]
    at herase
  rw [← herase]
  exact Prod.ext houtcomes hkept.session

-- A method of `B` runs for an instance of `C`: it searches the superclass of `B`.
set_option maxRecDepth 4000 in
example :
    List.filterMap (fun (o : Occasion) => match o.node, o.receiver with
      | .super .., some r => some (r.self.index, r.made.decl.name.text, r.made.superclass)
      | _, _ => none)
      ((RecordedSession.initial none fun _ => 0).run 8
        "class A\x7b\x7dclass B<A\x7bf()\x7bsuper.f;\x7d\x7dclass C<B\x7b\x7dC().f();").2.occasions =
      [(0, "B", some ⟨0⟩)] := by
  cbv

end Lox
