import Lox.Proofs.Ancestry.Calls
import Lox.Proofs.Ancestry.Preservation
import Lox.Proofs.Session.Reports
import Lox.Proofs.Session.Source

/-! Sessions with a record of the way: what is found for the name of a method on every machine that a session
passes, and what is executed when a value is called on it. -/

namespace Lox

/-- A session with a record of the way: the first identity not taken, and the passage. -/
structure PassedSession where
  nextId : Nat
  passage : Passage

namespace PassedSession

def initial (limit : Option Nat) (reading : Nat → Float) : PassedSession :=
  ⟨0, ⟨.initial limit reading, [], #[]⟩⟩

def session (passed : PassedSession) : Session :=
  ⟨passed.nextId, passed.passage.machine⟩

/-- The passage when entries are added to the table. -/
def start (passed : PassedSession) (distances : List Distance) : Passage :=
  passed.passage.goTo
    { passed.passage.machine with table := passed.passage.machine.table.extend distances }

/-- Runs a source text. One with a fault that shows before it runs leaves the machine where it is. -/
def run (fuel : Nat) (passed : PassedSession) (source : String) : Outcome × PassedSession :=
  match Program.ofSource? passed.nextId source with
  | none =>
    let (outcome, session) := passed.session.run fuel source
    (outcome, { passed with nextId := session.nextId })
  | some (program, nextId, distances) =>
    let ended := outcome (PassingRun.executeProgram fuel program) (passed.start distances)
    (.ofRun ended.1, ⟨nextId, ended.2⟩)

def runAll (fuel : Nat) (passed : PassedSession) : List String → List Outcome × PassedSession
  | [] => ([], passed)
  | source :: rest =>
    let (outcome, passed) := passed.run fuel source
    let (outcomes, passed) := passed.runAll fuel rest
    (outcome :: outcomes, passed)

/-- The outcome and the session that is left, without the record. -/
def erase {α : Type} (result : α × PassedSession) : α × Session :=
  (result.1, result.2.session)

lemma sound_initial (limit : Option Nat) (reading : Nat → Float) :
    (initial limit reading).passage.Sound where
  size := rfl
  reached m hm := by
    obtain rfl | hm := hm
    · exact ⟨Machine.Closed.initial limit reading, fun ref type htype => by
        simp [initial, Machine.class?, Machine.initial] at htype⟩
    · simp [initial] at hm

variable {passed : PassedSession}

lemma run_keeps (h : passed.passage.Sound) (fuel : Nat) (source : String) :
    erase (passed.run fuel source) = passed.session.run fuel source ∧
      (passed.run fuel source).2.passage.Sound := by
  unfold run
  cases hsource : Program.ofSource? passed.nextId source with
  | none =>
    rcases Session.run_cases fuel passed.session source with
      ⟨n, -, hrun⟩ | ⟨program, n, distances, hrun⟩
    · refine ⟨Prod.ext rfl ?_, h⟩
      change Session.mk (passed.session.run fuel source).2.nextId passed.passage.machine =
        (passed.session.run fuel source).2
      rw [hrun]
      rfl
    · exact absurd (hsource.symm.trans hrun) (by simp)
  | some found =>
    obtain ⟨program, nextId, distances⟩ := found
    have hstart : (passed.start distances).Sound :=
      h.goTo (h.closed.grows (.of_eq rfl rfl rfl) rfl rfl rfl) rfl
    obtain ⟨herases, hsound⟩ := PassingRun.program_keeps fuel program hstart
    refine ⟨?_, hsound⟩
    rw [Session.run_of_source fuel hsource, Session.runBound_eq]
    exact congrArg (fun ended : Except Halt Unit × Machine =>
      (Outcome.ofRun ended.1, Session.mk nextId ended.2)) herases.symm

lemma runAll_keeps (h : passed.passage.Sound) (fuel : Nat) (sources : List String) :
    erase (passed.runAll fuel sources) = passed.session.runAll fuel sources ∧
      (passed.runAll fuel sources).2.passage.Sound := by
  induction sources generalizing passed with
  | nil => exact ⟨rfl, h⟩
  | cons source rest ih =>
    obtain ⟨herase, hsound⟩ := run_keeps h fuel source
    obtain ⟨herases, hsounds⟩ := ih hsound
    refine ⟨?_, hsounds⟩
    simp only [Session.runAll, ← herase]
    exact congrArg (fun result : List Outcome × Session =>
      ((passed.run fuel source).1 :: result.1, result.2)) herases

/-- Source texts run one after another. On every machine that they pass each class was made after its
superclass, however often names of classes are declared again or assigned to; so the classes upward from one
come to an end, and the method that is found for a name is the last one of that name in the declaration of
the nearest of them that has one. When a value is called with as many arguments as it takes, the body that
is executed is that of a function with as many parameters, each of which is bound in the frame of the call;
for a class that is the initializer found upward from it, and a class without one executes none. It does
not matter that the initializer is searched for once for the number of arguments and once more to be
called. -/
theorem methods_and_calls (fuel : Nat) (limit : Option Nat) (reading : Nat → Float)
    (sources : List String) :
    let ended := (initial limit reading).runAll fuel sources
    erase ended = (Session.initial limit reading).runAll fuel sources ∧
      ∀ m, ended.2.passage.Reached m → m.Descends ended.2.passage.decls ∧
        ∀ callee arguments,
          (∀ callable, m.callable? callee = some callable → arguments.length = callable.arity →
            (∀ decl, m.body? callee = some decl →
              ∃ entered frame conclude, m.Enters callee arguments decl entered frame conclude) ∧
            (m.body? callee = none → arguments = [] ∧ ∀ execute execute' line,
              outcome (Run.callValue execute callee arguments line) m =
                outcome (Run.callValue execute' callee arguments line) m)) ∧
          ∀ execute line, outcome (Run.callSearching execute callee arguments line) m =
            outcome (Run.callValue execute callee arguments line) m := by
  obtain ⟨herase, hsound⟩ := runAll_keeps (sound_initial limit reading) fuel sources
  refine ⟨herase, fun m hm => ?_⟩
  obtain ⟨hclosed, hdeclared⟩ := hsound.reached m hm
  refine ⟨hdeclared.descends hclosed, fun callee arguments => ⟨fun callable hcallable harity => ?_, ?_⟩⟩
  · exact ⟨fun decl hbody => Machine.exists_enters hcallable harity hbody,
      fun hbody => Machine.enters_nothing hcallable harity hbody⟩
  · exact fun execute line => Run.outcome_callSearching callee arguments line m

-- The first `A` is still the superclass of `B`, which is that of the second `A`.
set_option maxRecDepth 4000 in
example :
    ((Session.initial none fun _ => 0).run 8
      "class A\x7b\x7dclass B<A\x7b\x7dclass A<B\x7b\x7d").2.machine.classes.map
        (fun type => (type.name, type.superclass)) =
      #[("A", none), ("B", some ⟨0⟩), ("A", some ⟨1⟩)] := by
  cbv

end PassedSession

end Lox
