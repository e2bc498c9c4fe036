import Lox.Session

/-!
The prompt: a session over the lines of the input, each of which is a program.
-/

namespace Lox

/-- What a process writes, and the status with which it exits. -/
structure Transcript where
  out : ByteArray
  err : String
  exit : Nat

def ioErrorExit : Nat :=
  74

/-- Why bytes cannot be read as text. -/
def invalidText : String :=
  "stream did not contain valid UTF-8"

/-- The text that bytes encode in UTF-8. -/
def decode? (bytes : List UInt8) : Option String :=
  String.fromUTF8? ⟨bytes.toArray⟩

/-- What is written about the end of a program that failed. -/
def Outcome.report (outcome : Outcome) : String :=
  outcome.failure?.elim "" fun f => f.message ++ "\n"

def Outcome.exitCode (outcome : Outcome) : Nat :=
  outcome.failure?.elim 0 Failure.exitCode

namespace Prompt

def banner : String :=
  "Welcome to the Lox REPL!\nEOF to exit. (Ctrl+D on *nix, Ctrl+Z on Windows)\n"

def mark : String :=
  "> "

/-- The first line of an input, its newline included, and the input behind it. -/
def readLine : List UInt8 → List UInt8 × List UInt8
  | [] => ([], [])
  | byte :: rest =>
    if byte = 10 then ([byte], rest)
    else
      let (line, behind) := readLine rest
      (byte :: line, behind)

theorem readLine_append (input : List UInt8) : (readLine input).1 ++ (readLine input).2 = input := by
  induction input with
  | nil => rfl
  | cons byte rest ih =>
    rw [readLine]
    split
    · rfl
    · exact congrArg (byte :: ·) ih

theorem length_readLine {input : List UInt8} (h : (readLine input).1 ≠ []) :
    (readLine input).2.length < input.length := by
  have hlength := congrArg List.length (readLine_append input)
  have hpos := List.length_pos_iff.mpr h
  rw [List.length_append] at hlength
  omega

/-- What is written for a line, and the session after it. Bytes that are no text end the prompt, so
that there is none. -/
def answer (fuel : Nat) (session : Session) (line : List UInt8) : Transcript × Option Session :=
  match decode? line with
  | none => (⟨.empty, invalidText ++ "\n", ioErrorExit⟩, none)
  | some source =>
    let (outcome, after) := session.run fuel source
    (⟨after.writtenSince session, outcome.report, 0⟩, some after)

/-- What is written from the first mark on. The prompt ends where nothing is left to read. -/
def dialogue (fuel : Nat) (session : Session) (input : List UInt8) : Transcript :=
  if (readLine input).1 = [] then ⟨mark.toUTF8, "", 0⟩
  else
    match answer fuel session (readLine input).1 with
    | (last, none) => { last with out := mark.toUTF8 ++ last.out }
    | (first, some after) =>
      let others := dialogue fuel after (readLine input).2
      ⟨mark.toUTF8 ++ first.out ++ others.out, first.err ++ others.err, others.exit⟩
termination_by input.length
decreasing_by exact length_readLine ‹_›

def transcript (fuel : Nat) (reading : Nat → Float) (input : List UInt8) : Transcript :=
  let dialogue := dialogue fuel (.initial none reading) input
  { dialogue with out := banner.toUTF8 ++ dialogue.out }

end Prompt

end Lox
