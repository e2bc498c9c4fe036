import Lox.Grammar.Error
import Lox.Syntax

/-!
Reading tokens one after another. A parser reads from the front of the tokens that are left, takes
identities for the references it makes, and keeps the faults that did not stop it.
-/

namespace Lox

/-- How far a parser has come: the tokens left, the next identity, and the faults met, the latest
first. -/
structure Cursor where
  rest : List Token
  nextId : Nat
  errors : List ParseError
deriving DecidableEq, Repr

inductive Stop
  | failed (e : ParseError)
  | outOfFuel
deriving DecidableEq, Repr

abbrev Parser := ExceptT Stop (StateM Cursor)

def Token.name (token : Token) : Name :=
  ⟨token.lexeme, token.line⟩

/-- The lexeme at which a fault is found; none at an end mark. -/
def Token.found? (token : Token) : Option String :=
  if token.kind = .eof then none else some token.lexeme

namespace Parser

/-- The next token, which stays where it is; none if there are no more. -/
def peek : Parser (Option Token) := do
  return (← get).rest.head?

def check (kind : Token.Kind) : Parser Bool := do
  return (← peek).any (·.kind == kind)

def skip : Parser Unit :=
  modify fun c => { c with rest := c.rest.tail }

def accept (kind : Token.Kind) : Parser Bool := do
  if ← check kind then
    skip
    return true
  return false

/-- The fault at the next token; at the end, if that is an end mark. Where there is no more token it is
at the end too, on no line. -/
def faultHere (cause : ParseError.Cause) (rule : Rule) : Parser ParseError := do
  let c ← get
  match c.rest with
  | token :: _ => return ⟨cause, token.line, token.found?, rule, c.rest.length⟩
  | [] => return ⟨cause, 0, none, rule, 0⟩

def fail {α : Type} (cause : ParseError.Cause) (rule : Rule) : Parser α := do
  throw (.failed (← faultHere cause rule))

def report (e : ParseError) : Parser Unit :=
  modify fun c => { c with errors := e :: c.errors }

def expect (kind : Token.Kind) (what : String) (rule : Rule) : Parser Token := do
  match ← peek with
  | some token =>
    if token.kind = kind then
      skip
      return token
    else fail (.expected what) rule
  | none => fail (.expected what) rule

def expectName (what : String) (rule : Rule) : Parser Name := do
  return (← expect .identifier what rule).name

def newReference (name : Name) : Parser Reference :=
  modifyGet fun c => (⟨c.nextId, name⟩, { c with nextId := c.nextId + 1 })

end Parser

end Lox
