import Lox.Grammar.Statement

/-!
Programs from tokens.
-/

namespace Lox

/-- More steps than any parser can nest over so many tokens: between two tokens there are fewer than
sixteen. -/
def Parser.ample (tokens : Nat) : Nat :=
  16 * (tokens + 1)

/-- The program that tokens make up, or all their faults in the order in which they were met, with
the first identity not taken. Identities are taken from `firstId` on, those of a faulty program
too. -/
def Program.parse (tokens : List Token) (firstId : Nat) : Except (List ParseError) Program × Nat :=
  let start : Cursor := { rest := tokens, nextId := firstId, errors := [] }
  let (result, final) := (Parser.declarations (Parser.ample tokens.length) false).run.run start
  match result, final.errors with
  | .ok program, [] => (.ok program, final.nextId)
  | _, errors => (.error errors.reverse, final.nextId)

end Lox
