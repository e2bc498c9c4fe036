import Lox.CommandLine
import Std.Time.DateTime.Timestamp

/-!
The program: it reads files, the input and the clock, and writes what the command line tells it to.
-/

namespace Lox.Main

/-- More fuel than any run uses up. -/
def fuel : Nat :=
  Nat.pow 2 62

/-- The seconds since the start of 1970. A program sees the clock stand still while it runs. -/
def readings : IO (Nat → Float) := do
  let now ← Std.Time.Timestamp.now
  let seconds := Float.ofInt now.toNanosecondsSinceUnixEpoch.val / 1e9
  return fun _ => seconds

def emit (transcript : Transcript) : IO UInt32 := do
  let out ← IO.getStdout
  out.write transcript.out
  out.flush
  IO.eprint transcript.err
  return transcript.exit.toUInt32

/-- Reads a line, up to and including its newline; empty at the end of the input. -/
partial def readLine (input : IO.FS.Stream) (line : ByteArray) : IO ByteArray := do
  let byte ← input.read 1
  if byte.isEmpty then return line
  else if byte.data == #[10] then return line ++ byte
  else readLine input (line ++ byte)

/-- Answers lines until the input or the prompt ends. -/
partial def prompt (session : Session) : IO UInt32 := do
  let out ← IO.getStdout
  out.putStr Prompt.mark
  out.flush
  let line ← readLine (← IO.getStdin) .empty
  if line.isEmpty then return 0
  let (transcript, after) := Prompt.answer fuel (session.setClock (← readings)) line.toList
  let exit ← emit transcript
  match after with
  | some session => prompt session
  | none => return exit

def readFile (path : String) : IO FileContent := do
  try
    return .bytes (← IO.FS.readBinFile path).toList
  catch
    | .noFileOrDirectory .. => return .missing
    | .inappropriateType .. => return .directory
    | e => return .unreadable (toString e)

def dispatch (args : List String) : IO UInt32 := do
  match CommandLine.command args with
  | .prompt =>
    IO.print Prompt.banner
    prompt (.initial none (← readings))
  | .run path =>
    emit (CommandLine.runFile fuel (← readings) path (← readFile path))
  | .version => emit ⟨CommandLine.versionText.toUTF8, "", 0⟩
  | .usageError =>
    IO.eprintln "Usage: lox [run <FILE> | repl]"
    return CommandLine.usageExit.toUInt32

end Lox.Main

def main (args : List String) : IO UInt32 :=
  Lox.Main.dispatch args
