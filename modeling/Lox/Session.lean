import Lox.Eval.Evaluate
import Lox.Grammar.Program
import Lox.Token.Scan

/-!
Sessions: programs run one after another on one machine. Each sees what those before it left behind,
failed ones included.
-/

namespace Lox

inductive Failure
  | scan (errors : List ScanError)
  | parse (errors : List ParseError)
  | resolve (violations : List Violation)
  | runtime (error : RuntimeError)
deriving DecidableEq, Repr

namespace Failure

def message : Failure → String
  | scan errors => "\n".intercalate (errors.map ScanError.message)
  | parse errors => "\n".intercalate (errors.map ParseError.message)
  | resolve violations => "\n".intercalate (violations.map Violation.message)
  | runtime error => error.message

/-- The exit status that reports a failure: of the input, or of the program while it runs. -/
def exitCode : Failure → Nat
  | scan _ | parse _ | resolve _ => 65
  | runtime _ => 70

end Failure

/-- How a program ends; it is unfinished when it uses up the fuel granted to it. -/
inductive Outcome
  | success
  | failure (f : Failure)
  | unfinished
deriving DecidableEq, Repr

def Outcome.failure? : Outcome → Option Failure
  | failure f => some f
  | _ => none

def Outcome.ofRun : Except Halt Unit → Outcome
  | .ok () => success
  | .error (.error e) => failure (.runtime e)
  | .error .outOfFuel => unfinished

/-- A session: the first identity not taken, and the machine. -/
structure Session where
  nextId : Nat
  machine : Machine

/-- Tells where the names of a program are bound. -/
abbrev Binder := Program → Except (List Violation) (List Distance)

namespace Session

def initial (limit : Option Nat) (reading : Nat → Float) : Session :=
  { nextId := 0, machine := .initial limit reading }

/-- The session with other readings of the clock from now on. -/
def setClock (session : Session) (reading : Nat → Float) : Session :=
  { session with machine := { session.machine with clock := ⟨reading, 0⟩ } }

def written (session : Session) : ByteArray :=
  session.machine.output.written

/-- What has been printed since an earlier moment of the session. -/
def writtenSince (session earlier : Session) : ByteArray :=
  session.written.extract earlier.written.size session.written.size

/-- Runs a program whose names are bound as given. -/
def runBound (fuel : Nat) (session : Session) (program : Program) (distances : List Distance) :
    Outcome × Session :=
  let machine := { session.machine with table := session.machine.table.extend distances }
  let (result, machine) := (Program.execute fuel program).run.run machine
  (.ofRun result, { session with machine })

/-- Runs the program that tokens make up. Identities taken by a faulty one stay taken. -/
def runTokens (fuel : Nat) (binder : Binder) (session : Session) (tokens : List Token) :
    Outcome × Session :=
  let (parsed, nextId) := Program.parse tokens session.nextId
  let session := { session with nextId }
  match parsed with
  | .error errors => (.failure (.parse errors), session)
  | .ok program =>
    match binder program with
    | .error violations => (.failure (.resolve violations), session)
    | .ok distances => session.runBound fuel program distances

/-- Runs a source text. It runs only if there is no fault in it. -/
def run (fuel : Nat) (session : Session) (source : String) : Outcome × Session :=
  match Token.scan source with
  | .error errors => (.failure (.scan errors), session)
  | .ok tokens => session.runTokens fuel Program.resolve tokens

/-- Runs source texts one after another, whether or not those before fail. -/
def runAll (fuel : Nat) (session : Session) : List String → List Outcome × Session
  | [] => ([], session)
  | source :: rest =>
    let (outcome, session) := session.run fuel source
    let (outcomes, session) := session.runAll fuel rest
    (outcome :: outcomes, session)

end Session

end Lox
