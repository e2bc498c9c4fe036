import Lox.Session
import Lox.Proofs.Outcome

/-! What source texts in a session report, and the texts that fail before they run. -/

namespace Lox

/-- Whether a text fails before it runs. -/
def Outcome.isStatic : Outcome → Bool
  | failure (.scan _) | failure (.parse _) | failure (.resolve _) => true
  | failure (.runtime _) | success | unfinished => false

lemma Outcome.isStatic_ofRun (result : Except Halt Unit) : (ofRun result).isStatic = false := by
  rcases result with ⟨_ | _⟩ | _ <;> rfl

namespace Session

lemma runBound_eq (fuel : Nat) (session : Session) (program : Program)
    (distances : List Distance) :
    session.runBound fuel program distances =
      let ended := outcome (Program.execute fuel program)
        { session.machine with table := session.machine.table.extend distances }
      (.ofRun ended.1, { session with machine := ended.2 }) := rfl

/-- How source texts run one after another end, and what each of them prints. -/
def reports (fuel : Nat) (session : Session) : List String → List (Outcome × ByteArray)
  | [] => []
  | source :: rest =>
    let (outcome, after) := session.run fuel source
    (outcome, after.writtenSince session) :: after.reports fuel rest

lemma map_fst_reports (fuel : Nat) (session : Session) (sources : List String) :
    (session.reports fuel sources).map Prod.fst = (session.runAll fuel sources).1 := by
  induction sources generalizing session with
  | nil => rfl
  | cons source rest ih => exact congrArg (_ :: ·) (ih _)

/-- A text that fails before it runs leaves the machine as it is. -/
lemma machine_run_of_isStatic {fuel : Nat} {session : Session} {source : String}
    (h : (session.run fuel source).1.isStatic = true) :
    (session.run fuel source).2.machine = session.machine := by
  unfold run at h ⊢
  cases hs : Token.scan source with
  | error errors => rfl
  | ok tokens =>
    simp only [hs, runTokens] at h ⊢
    rcases hp : Program.parse tokens session.nextId with ⟨errors | program, m⟩
    · rfl
    · simp only [hp] at h ⊢
      cases hr : Program.resolve program with
      | error violations => rfl
      | ok distances => simp [hr, runBound_eq, Outcome.isStatic_ofRun] at h

end Session

end Lox
