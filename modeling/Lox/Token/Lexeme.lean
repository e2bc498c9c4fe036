import Lox.Decimal.Reading
import Lox.Text.Blank
import Lox.Token

/-!
The lexemes at the start of a text. Each class of lexeme has a rule of its own; among the rules
that match, the longest lexeme wins, and of equally long ones the rule listed first.
-/

namespace Lox.Lexeme

/-- A class of lexeme: how many characters one takes at the start of a text, and what it means. -/
structure Rule (α : Type) where
  length? : List Char → Option Nat
  meaning : List Char → α

/-- The longest lexeme at the start of a text, by its meaning and its length. -/
def longest {α : Type} : List (Rule α) → List Char → Option (α × Nat)
  | [], _ => none
  | rule :: rules, text =>
    match rule.length? text, longest rules text with
    | none, best => best
    | some n, none => some (rule.meaning (text.take n), n)
    | some n, some (other, m) => some (if m ≤ n then (rule.meaning (text.take n), n) else (other, m))

/-- The length of a run, unless it is empty. -/
def run? (p : Char → Bool) (text : List Char) : Option Nat :=
  match (text.takeWhile p).length with
  | 0 => none
  | n + 1 => some (n + 1)

def fixed? (lexeme text : List Char) : Option Nat :=
  if lexeme.isPrefixOf text then some lexeme.length else none

/-- A comment to the end of the line, which is not part of it. -/
def lineComment? : List Char → Option Nat
  | '/' :: '/' :: rest => some ((rest.takeWhile (· != '\n')).length + 2)
  | _ => none

/-- How many characters come before the end mark of a block comment, besides `before`. -/
def closing? : (before : Nat) → List Char → Option Nat
  | before, '*' :: '/' :: _ => some before
  | before, _ :: rest => closing? (before + 1) rest
  | _, [] => none

/-- A comment to the first end mark. -/
def blockComment? : List Char → Option Nat
  | '/' :: '*' :: rest => (closing? 0 rest).map (· + 4)
  | _ => none

/-- Whether a block comment begins here that never ends. -/
def opensComment : List Char → Bool
  | '/' :: '*' :: rest => (closing? 0 rest).isNone
  | _ => false

/-- Text between quotes; nothing in it is special. -/
def quoted? : List Char → Option Nat
  | '"' :: rest => if '"' ∈ rest then some ((rest.takeWhile (· != '"')).length + 2) else none
  | _ => none

/-- Whether a quoted text begins here that never ends. -/
def opensString : List Char → Bool
  | '"' :: rest => '"' ∉ rest
  | _ => false

/-- Digits, and after them a point only if a digit follows it. -/
def number? (text : List Char) : Option Nat :=
  (run? Char.isDigit text).map fun whole =>
    match text.drop whole with
    | '.' :: rest => (run? Char.isDigit rest).elim whole (whole + 1 + ·)
    | _ => whole

/-- Whether an identifier may begin with a character; only ASCII letters and `_` may. -/
def beginsIdentifier (c : Char) : Bool :=
  c.isAlpha || c == '_'

def continuesIdentifier (c : Char) : Bool :=
  c.isAlphanum || c == '_'

/-- A letter or `_`, then all the letters, digits and `_` that follow. -/
def identifier? : List Char → Option Nat
  | c :: rest =>
    if beginsIdentifier c then some ((rest.takeWhile continuesIdentifier).length + 1) else none
  | [] => none

def triviaRules : List (Rule Unit) :=
  [run? Text.isBlank, lineComment?, blockComment?].map fun length? => ⟨length?, fun _ => ()⟩

def numberValue (lexeme : List Char) : Float :=
  Decimal.nearest (lexeme.takeWhile (· != '.')) ((lexeme.dropWhile (· != '.')).drop 1)

def quotedValue (lexeme : List Char) : String :=
  String.ofList ((lexeme.drop 1).dropLast)

/-- The tokens. Keywords come before identifiers, and so win against one of the same length. -/
def tokenRules : List (Rule (Token.Kind × Option Literal)) :=
  ((Token.Kind.symbols ++ Token.Kind.keywords).map fun (lexeme, kind) =>
    ⟨fixed? lexeme.toList, fun _ => (kind, none)⟩) ++
  [⟨identifier?, fun _ => (.identifier, none)⟩,
    ⟨quoted?, fun lexeme => (.string, some (.text (quotedValue lexeme)))⟩,
    ⟨number?, fun lexeme => (.number, some (.number (numberValue lexeme)))⟩]

end Lox.Lexeme
