import Lox.Prompt

/-!
The command line: what its arguments ask for, and what comes of it.
-/

namespace Lox

inductive Command
  | prompt
  | run (path : String)
  | version
  | usageError
deriving DecidableEq, Repr

inductive FileContent
  | bytes (content : List UInt8)
  | unreadable (reason : String)
deriving DecidableEq, Repr

def FileContent.missing : FileContent :=
  unreadable "No such file or directory (os error 2)"

def FileContent.directory : FileContent :=
  unreadable "Is a directory (os error 21)"

namespace CommandLine

def versionText : String :=
  "lox 0.1.0\n"

/-- The exit status for arguments that make no sense. -/
def usageExit : Nat :=
  2

/-- Whether an argument is an option; a single dash is none. -/
def isOption (argument : String) : Bool :=
  argument.startsWith "-" && argument != "-"

/-- The arguments that are no options; none if there is an option. Behind two dashes no argument is
an option. -/
def positional? : List String → Option (List String)
  | [] => some []
  | argument :: rest =>
    if argument = "--" then some rest
    else if isOption argument then none
    else (positional? rest).map (argument :: ·)

def command : List String → Command
  | [] => .prompt
  | first :: rest =>
    if first = "--version" || first.startsWith "-V" then .version
    else if first = "run" then
      match positional? rest with
      | some [path] => if path = "" then .usageError else .run path
      | _ => .usageError
    else if first = "repl" then if positional? rest = some [] then .prompt else .usageError
    else if first = "--" && rest.isEmpty then .prompt
    else .usageError

def unreadable (path reason : String) : Transcript :=
  ⟨.empty, "Could not read " ++ path ++ ": " ++ reason ++ "\n", ioErrorExit⟩

def runFile (fuel : Nat) (reading : Nat → Float) (path : String) : FileContent → Transcript
  | .unreadable reason => unreadable path reason
  | .bytes content =>
    match decode? content with
    | none => unreadable path invalidText
    | some source =>
      let (outcome, after) := (Session.initial none reading).run fuel source
      ⟨after.written, outcome.report, outcome.exitCode⟩

/-- What comes of a command, given the files there are and the input. What is written about a usage
error is left to the outer layer. -/
def transcript (fuel : Nat) (reading : Nat → Float) (file : String → FileContent)
    (input : List UInt8) : Command → Transcript
  | .prompt => Prompt.transcript fuel reading input
  | .run path => runFile fuel reading path (file path)
  | .version => ⟨versionText.toUTF8, "", 0⟩
  | .usageError => ⟨.empty, "", usageExit⟩

end CommandLine

end Lox
