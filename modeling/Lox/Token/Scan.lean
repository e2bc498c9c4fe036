import Lox.Token.Lexeme

/-!
The tokens of a source text. A text with a stray character, or with a string or a comment that
never ends, has none; all its faults are found at once.
-/

namespace Lox

inductive ScanError.Cause
  | unexpectedCharacter (c : Char)
  | unterminatedString
  | unterminatedComment
deriving DecidableEq, Repr

/-- A fault of a text, with the line on which it begins. -/
structure ScanError where
  cause : ScanError.Cause
  line : Nat
deriving DecidableEq, Repr

namespace ScanError

def Cause.message : Cause → String
  | unexpectedCharacter c => "Unexpected character '" ++ c.toString ++ "'."
  | unterminatedString => "Unterminated string."
  | unterminatedComment => "Unterminated block comment."

def message (e : ScanError) : String :=
  "[line " ++ toString e.line ++ "] Error: " ++ e.cause.message

end ScanError

def Token.endMark (line : Nat) : Token :=
  ⟨.eof, "", none, line⟩

/-- A scan under way: the line it has come to, and what it has found so far. -/
structure Scanner where
  line : Nat
  tokens : List Token
  errors : List ScanError
deriving Repr

namespace Scanner

def start : Scanner :=
  ⟨1, [], []⟩

def pass (s : Scanner) (chars : List Char) : Scanner :=
  { s with line := s.line + chars.count '\n' }

/-- A token is on the line on which it begins. -/
def push (s : Scanner) (kind : Token.Kind) (literal : Option Literal) (chars : List Char) : Scanner :=
  { s with
    tokens := s.tokens ++ [⟨kind, String.ofList chars, literal, s.line⟩]
    line := s.line + chars.count '\n' }

def fail (s : Scanner) (cause : ScanError.Cause) : Scanner :=
  { s with errors := s.errors ++ [⟨cause, s.line⟩] }

/-- The start of the text `c :: rest` is read: the scanner then, and how many characters it has left
behind. A string or a comment that never ends takes all of them, and a character that begins no token
only itself. -/
def step (s : Scanner) (c : Char) (rest : List Char) : Scanner × Nat :=
  let text := c :: rest
  if Lexeme.opensComment text then (s.fail .unterminatedComment, text.length)
  else
    match Lexeme.longest Lexeme.triviaRules text with
    | some (_, n) => (s.pass (text.take n), n)
    | none =>
      if Lexeme.opensString text then (s.fail .unterminatedString, text.length)
      else
        match Lexeme.longest Lexeme.tokenRules text with
        | some ((kind, literal), n) => (s.push kind literal (text.take n), n)
        | none => (s.fail (.unexpectedCharacter c), 1)

/-- A text is read after the first `behind` characters. -/
def run : (behind : Nat) → Scanner → List Char → Scanner
  | _, s, [] => s
  | behind + 1, s, _ :: rest => run behind s rest
  | 0, s, c :: rest =>
    let (next, n) := s.step c rest
    run (n - 1) next rest

end Scanner

/-- The tokens of a source text and their end mark, or all the faults of the text. -/
def Token.scan (source : String) : Except (List ScanError) (List Token) :=
  let found := Scanner.run 0 .start source.toList
  match found.errors with
  | [] => .ok (found.tokens ++ [endMark found.line])
  | errors => .error errors

end Lox
