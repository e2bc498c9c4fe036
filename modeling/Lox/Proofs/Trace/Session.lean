import Lox.Proofs.Session.Source
import Lox.Proofs.Trace.Transfer

/-! Source texts run with a trace in a session. Without its trace such a run is the run itself. -/

namespace Lox

namespace TracedRun

variable {α : Type}

lemma outcome_lift (x : Run α) (t : Trace) :
    outcome (lift x) t =
      ((outcome x t.machine).1, { t with machine := (outcome x t.machine).2 }) := rfl

lemma outcome_within (frame : FrameRef) (body : TracedRun α) (t : Trace) :
    outcome (within frame body) t =
      let ended := outcome body { t with machine.current := frame }
      (ended.1, { ended.2 with machine.current := t.machine.current }) := rfl

/-- The run does on the machine what the one with a trace does. -/
def Erases (x : TracedRun α) (y : Run α) : Prop :=
  ∀ t, outcome y t.machine = ((outcome x t).1, (outcome x t).2.machine)

lemma erases_transfers : Transfers fun _ x y => Erases x y where
  pure _ _ := rfl
  throw _ _ := rfl
  bind {α β x y f g} hx hf := by
    intro t
    rw [outcome_bind, outcome_bind, hx t]
    rcases outcome x t with ⟨_ | a, t'⟩
    · rfl
    · exact hf a t'
  lift _ _ := rfl
  look seen g _ hf t := hf (seen t.machine) t
  within {α x y} frame hx := by
    intro t
    rw [outcome_within, Run.outcome_within]
    have hbody := hx { t with machine.current := frame }
    dsimp only at hbody
    rw [hbody]
  print _ _ _ := rfl
  record {α deed f y} _ hf t := hf { t with deeds := t.deeds ++ [deed] }
  newCall hf t := hf t.calls { t with calls := t.calls + 1 }

end TracedRun

namespace Session

lemma run_of_no_source {n : Nat} {source : String} (fuel : Nat)
    (h : Program.ofSource? n source = none) :
    ∃ outcome nextId, ∀ machine,
      (Session.mk n machine).run fuel source = (outcome, Session.mk nextId machine) := by
  unfold Program.ofSource? at h
  unfold run runTokens
  cases hscan : Token.scan source with
  | error errors => exact ⟨.failure (.scan errors), n, fun _ => rfl⟩
  | ok tokens =>
    rw [hscan] at h
    rcases hparse : Program.parse tokens n with ⟨errors | program, nextId⟩
    · exact ⟨.failure (.parse errors), nextId, fun _ => by simp only [hparse]⟩
    · cases hresolve : Program.resolve program with
      | error violations =>
        exact ⟨.failure (.resolve violations), nextId, fun _ => by simp only [hparse, hresolve]⟩
      | ok distances => simp [hparse, hresolve] at h

/-- The trace that a program begins with whose names are bound as given. -/
def start (session : Session) (distances : List Distance) : Trace :=
  ⟨{ session.machine with table := session.machine.table.extend distances }, 0, []⟩

/-- A source text run with a trace: how it ends, the session after it, and what is done. Nothing is done
for a text that fails before it runs. -/
def traced (fuel : Nat) (session : Session) (source : String) : (Outcome × Session) × List Deed :=
  match Program.ofSource? session.nextId source with
  | none => (session.run fuel source, [])
  | some (program, nextId, distances) =>
    let ended := outcome (TracedRun.executeProgram fuel program) (session.start distances)
    ((.ofRun ended.1, ⟨nextId, ended.2.machine⟩), ended.2.deeds)

section Source

variable {session : Session} {source : String}

lemma traced_of_no_source (fuel : Nat) (h : Program.ofSource? session.nextId source = none) :
    session.traced fuel source = (session.run fuel source, []) := by
  rw [traced, h]

variable {program : Program} {nextId : Nat} {distances : List Distance}
  (h : Program.ofSource? session.nextId source = some (program, nextId, distances))

include h

lemma traced_of_source (fuel : Nat) :
    session.traced fuel source =
      let ended := outcome (TracedRun.executeProgram fuel program) (session.start distances)
      ((.ofRun ended.1, ⟨nextId, ended.2.machine⟩), ended.2.deeds) := by
  rw [traced, h]

lemma run_eq_outcome (fuel : Nat) :
    session.run fuel source =
      let ended := outcome (Program.execute fuel program) (session.start distances).machine
      (.ofRun ended.1, ⟨nextId, ended.2⟩) := by
  rw [run_of_source fuel h, runBound_eq]
  rfl

end Source

lemma traced_fst (fuel : Nat) (session : Session) (source : String) :
    (session.traced fuel source).1 = session.run fuel source := by
  cases hsource : Program.ofSource? session.nextId source with
  | none => rw [traced_of_no_source fuel hsource]
  | some found =>
    obtain ⟨program, nextId, distances⟩ := found
    rw [traced_of_source hsource, run_eq_outcome hsource,
      TracedRun.erases_transfers.program fuel program (session.start distances)]

end Session

end Lox
