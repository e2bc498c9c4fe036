/-!
Tokens: what a program is made of after its blanks and comments are gone.
-/

namespace Lox

inductive Literal
  | number (value : Float)
  | text (value : String)
  | boolean (value : Bool)
  | nil
deriving DecidableEq, Repr

inductive Token.Kind
  | leftParen | rightParen | leftBrace | rightBrace | comma | dot | minus | plus | semicolon
  | slash | star | bang | bangEqual | equal | equalEqual | greater | greaterEqual | less | lessEqual
  | identifier | string | number
  | kwAnd | kwClass | kwElse | kwFalse | kwFun | kwFor | kwIf | kwNil | kwOr | kwPrint | kwReturn
  | kwSuper | kwThis | kwTrue | kwVar | kwWhile
  | eof
deriving DecidableEq, Repr

/-- A token with the line on which its lexeme begins. -/
structure Token where
  kind : Token.Kind
  lexeme : String
  literal : Option Literal
  line : Nat
deriving DecidableEq, Repr

namespace Token.Kind

/-- The symbols with their lexemes. -/
def symbols : List (String × Kind) :=
  [("(", leftParen), (")", rightParen), ("\x7b", leftBrace), ("\x7d", rightBrace), (",", comma),
    (".", dot), ("-", minus), ("+", plus), (";", semicolon), ("/", slash), ("*", star),
    ("!", bang), ("!=", bangEqual), ("=", equal), ("==", equalEqual), (">", greater),
    (">=", greaterEqual), ("<", less), ("<=", lessEqual)]

/-- The keywords with their lexemes. -/
def keywords : List (String × Kind) :=
  [("and", kwAnd), ("class", kwClass), ("else", kwElse), ("false", kwFalse), ("fun", kwFun),
    ("for", kwFor), ("if", kwIf), ("nil", kwNil), ("or", kwOr), ("print", kwPrint),
    ("return", kwReturn), ("super", kwSuper), ("this", kwThis), ("true", kwTrue), ("var", kwVar),
    ("while", kwWhile)]

end Token.Kind

end Lox
