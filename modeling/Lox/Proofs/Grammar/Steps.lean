import Lox.Grammar.Program
import Lox.Proofs.Outcome

/-! What the parsers of single tokens make of a cursor, and how the tiers of operators nest. -/

namespace Lox

def Tier.tightness : Tier → Nat
  | disjunction => 0
  | conjunction => 1
  | equality => 2
  | comparison => 3
  | term => 4
  | factor => 5

lemma Tier.tightness_le (tier : Tier) : tier.tightness ≤ 5 := by
  cases tier <;> decide

lemma Tier.tightness_of_tighter? {tier inner : Tier} (h : tier.tighter? = some inner) :
    inner.tightness = tier.tightness + 1 := by
  cases tier <;> simp only [Tier.tighter?, Option.some.injEq, reduceCtorEq] at h <;> subst h <;> rfl

lemma Tier.tightness_of_tightest {tier : Tier} (h : tier.tighter? = none) : tier.tightness = 5 := by
  cases tier <;> simp_all [Tier.tighter?, Tier.tightness]

def Cursor.fault (c : Cursor) (cause : ParseError.Cause) (rule : Rule) : ParseError :=
  match c.rest with
  | t :: _ => ⟨cause, t.line, t.found?, rule, c.rest.length⟩
  | [] => ⟨cause, 0, none, rule, 0⟩

namespace Parser

variable {c d : Cursor} {kind : Token.Kind} {what : String} {rule : Rule}

@[simp] lemma outcome_peek (c : Cursor) : outcome peek c = (.ok c.rest.head?, c) := rfl

@[simp] lemma outcome_check (kind : Token.Kind) (c : Cursor) :
    outcome (check kind) c = (.ok (c.rest.head?.any (·.kind == kind)), c) := rfl

@[simp] lemma outcome_skip (c : Cursor) :
    outcome skip c = (.ok (), { c with rest := c.rest.tail }) := rfl

@[simp] lemma outcome_report (e : ParseError) (c : Cursor) :
    outcome (report e) c = (.ok (), { c with errors := e :: c.errors }) := rfl

@[simp] lemma outcome_newReference (name : Name) (c : Cursor) :
    outcome (newReference name) c = (.ok ⟨c.nextId, name⟩, { c with nextId := c.nextId + 1 }) := rfl

@[simp] lemma outcome_faultHere (cause : ParseError.Cause) (rule : Rule) (c : Cursor) :
    outcome (faultHere cause rule) c = (.ok (c.fault cause rule), c) := by
  simp only [faultHere, outcome_bind, outcome_get, Cursor.fault]
  cases c.rest <;> rfl

@[simp] lemma outcome_fail {α : Type} (cause : ParseError.Cause) (rule : Rule) (c : Cursor) :
    outcome (fail cause rule : Parser α) c = (.error (.failed (c.fault cause rule)), c) := by
  simp [fail, outcome_bind]

lemma outcome_accept (kind : Token.Kind) (c : Cursor) :
    outcome (accept kind) c =
      if c.rest.head?.any (·.kind == kind) then (.ok true, { c with rest := c.rest.tail })
      else (.ok false, c) := by
  simp only [accept, outcome_bind, outcome_check]
  split <;> simp [outcome_map]

lemma outcome_expect (kind : Token.Kind) (what : String) (rule : Rule) (c : Cursor) :
    outcome (expect kind what rule) c =
      match c.rest with
      | t :: rest =>
        if t.kind = kind then (.ok t, { c with rest })
        else (.error (.failed (c.fault (.expected what) rule)), c)
      | [] => (.error (.failed (c.fault (.expected what) rule)), c) := by
  simp only [expect, outcome_bind, outcome_peek]
  rcases h : c.rest with _ | ⟨t, rest⟩
  · simp
  · by_cases hk : t.kind = kind <;> simp [hk, h, outcome_map]

/-- Whether the declarations of a block, or of a program, end in front of the tokens. -/
def closes (inBlock : Bool) (rest : List Token) : Bool :=
  rest.head?.elim true fun t => t.kind == .eof || (inBlock && t.kind == .rightBrace)

@[simp] lemma outcome_atClose (inBlock : Bool) (c : Cursor) :
    outcome (atClose inBlock) c = (.ok (closes inBlock c.rest), c) := by
  simp only [atClose, outcome_bind, outcome_peek, closes]
  cases c.rest <;> rfl

lemma yields_peek {next : Option Token} :
    Yields peek c next d ↔ c.rest.head? = next ∧ c = d := by
  simp [Yields]

lemma yields_check {found : Bool} :
    Yields (check kind) c found d ↔ c.rest.head?.any (·.kind == kind) = found ∧ c = d := by
  simp [Yields]

lemma yields_atClose {inBlock closed : Bool} :
    Yields (atClose inBlock) c closed d ↔ closes inBlock c.rest = closed ∧ c = d := by
  simp [Yields]

lemma yields_skip {u : Unit} : Yields skip c u d ↔ { c with rest := c.rest.tail } = d := by
  simp [Yields]

lemma yields_newReference {name : Name} {r : Reference} :
    Yields (newReference name) c r d ↔
      r = ⟨c.nextId, name⟩ ∧ d = { c with nextId := c.nextId + 1 } := by
  simp [Yields, eq_comm]

lemma yields_report {e : ParseError} {u : Unit} :
    Yields (report e) c u d ↔ { c with errors := e :: c.errors } = d := by
  simp [Yields]

lemma yields_faultHere {cause : ParseError.Cause} {e : ParseError} :
    Yields (faultHere cause rule) c e d ↔ c.fault cause rule = e ∧ c = d := by
  simp [Yields]

lemma yields_fail {α : Type} {cause : ParseError.Cause} {a : α} :
    Yields (fail cause rule) c a d ↔ False := by
  simp [Yields]

lemma yields_accept {found : Bool} :
    Yields (accept kind) c found d ↔
      match found with
      | true => ∃ t rest, c.rest = t :: rest ∧ t.kind = kind ∧ d = { c with rest }
      | false => (∀ t ∈ c.rest.head?, t.kind ≠ kind) ∧ d = c := by
  rw [Yields, outcome_accept]
  rcases h : c.rest with _ | ⟨t, rest⟩
  · cases found <;> simp [eq_comm]
  · by_cases hk : t.kind = kind <;> cases found <;> simp [hk]
    all_goals grind

lemma yields_expect {t : Token} :
    Yields (expect kind what rule) c t d ↔
      ∃ rest, c.rest = t :: rest ∧ t.kind = kind ∧ d = { c with rest } := by
  rw [Yields, outcome_expect]
  rcases h : c.rest with _ | ⟨u, rest⟩
  · simp
  · by_cases hk : u.kind = kind
    · simp only [hk, if_true, Prod.mk.injEq, Except.ok.injEq, List.cons.injEq]
      constructor
      · rintro ⟨rfl, rfl⟩
        exact ⟨rest, ⟨rfl, rfl⟩, hk, rfl⟩
      · rintro ⟨_, ⟨rfl, rfl⟩, _, rfl⟩
        exact ⟨rfl, rfl⟩
    · simp only [hk, if_false, Prod.mk.injEq, reduceCtorEq, false_and, List.cons.injEq, false_iff]
      rintro ⟨_, ⟨rfl, _⟩, hu, _⟩
      exact hk hu

lemma yields_expectName {name : Name} :
    Yields (expectName what rule) c name d ↔
      ∃ t rest, c.rest = t :: rest ∧ t.kind = .identifier ∧ name = t.name ∧ d = { c with rest } := by
  simp only [expectName, yields_bind, yields_pure, yields_expect]
  grind

def startOf (tokens : List Token) (n : Nat) : Cursor :=
  { rest := tokens, nextId := n, errors := [] }

/-- What tokens make up that have been read as declarations. -/
def verdict (ended : Except Stop (List Stmt) × Cursor) :
    Except (List ParseError) Program × Nat :=
  match ended.1, ended.2.errors with
  | .ok program, [] => (.ok program, ended.2.nextId)
  | _, errors => (.error errors.reverse, ended.2.nextId)

lemma parse_eq_verdict (tokens : List Token) (n : Nat) :
    Program.parse tokens n =
      verdict (outcome (declarations (ample tokens.length) false) (startOf tokens n)) := rfl

end Parser

end Lox
