import Lox.Proofs.Grammar.Derivation

/-! The tokens with which phrases begin. -/

namespace Lox

namespace Token.Kind

def beginsPrimary : Kind → Bool
  | kwFalse | kwTrue | kwNil | number | string | identifier | kwThis | kwSuper | leftParen => true
  | _ => false

def beginsExpression (kind : Kind) : Bool :=
  kind.beginsPrimary || (UnaryOp.ofKind? kind).isSome

/-- Whether a token of a kind begins a statement that is not just an expression. -/
def beginsControl : Kind → Bool
  | kwFor | kwIf | kwPrint | kwReturn | kwWhile | leftBrace => true
  | _ => false

def beginsDeclaration : Kind → Bool
  | kwClass | kwFun | kwVar => true
  | _ => false

end Token.Kind

/-- The tokens that can begin a phrase, if it cannot be empty. -/
def Phrase.begins? : Phrase → Option (Token.Kind → Bool)
  | expression _ | operators .. | operand .. | unary _ | arguments _ | evaluation _ =>
    some Token.Kind.beginsExpression
  | call _ | primary _ => some Token.Kind.beginsPrimary
  | statement .. => some fun kind => kind.beginsExpression || kind.beginsControl
  | declaration _ => some fun kind =>
    kind.beginsExpression || kind.beginsControl || kind.beginsDeclaration
  | function _ => some (· == .identifier)
  | optional _ | binding _ | clause _ | declarations _ | methods _ => none

def BeginsWith (begins : Token.Kind → Bool) (ts : List Token) : Prop :=
  ∃ t rest, ts = t :: rest ∧ begins t.kind = true

lemma BeginsWith.append {begins : Token.Kind → Bool} {ts us : List Token}
    (h : BeginsWith begins ts) : BeginsWith begins (ts ++ us) := by
  obtain ⟨t, rest, rfl, ht⟩ := h
  exact ⟨t, rest ++ us, rfl, ht⟩

lemma BeginsWith.mono {p q : Token.Kind → Bool} {ts : List Token} (h : BeginsWith p ts)
    (hpq : ∀ kind, p kind = true → q kind = true) : BeginsWith q ts := by
  obtain ⟨t, rest, rfl, ht⟩ := h
  exact ⟨t, rest, rfl, hpq _ ht⟩

lemma BeginsWith.check_append {begins : Token.Kind → Bool} {ts us : List Token} {kind : Token.Kind}
    (h : BeginsWith begins ts) (hk : begins kind = false) :
    (ts ++ us).head?.any (·.kind == kind) = false := by
  obtain ⟨t, rest, rfl, ht⟩ := h
  simp only [List.cons_append, List.head?_cons, Option.any_some, beq_eq_false_iff_ne]
  rintro rfl
  simp [hk] at ht

lemma beginsWith_cons {begins : Token.Kind → Bool} {t : Token} {ts : List Token}
    (h : begins t.kind = true) : BeginsWith begins (t :: ts) :=
  ⟨t, ts, rfl, h⟩

lemma beginsExpression_of_beginsPrimary (kind : Token.Kind) (h : kind.beginsPrimary = true) :
    kind.beginsExpression = true := by
  simp [Token.Kind.beginsExpression, h]

lemma Derives.beginsWith {n m : Nat} {ts : List Token} {p : Phrase} (h : Derives n ts p m) :
    ∀ begins ∈ p.begins?, BeginsWith begins ts := by
  induction h <;>
    simp only [Phrase.begins?, Option.mem_def, Option.some.injEq, forall_eq', reduceCtorEq,
      IsEmpty.forall_iff, implies_true] at *
  case loosest ih | first ih | tighter ih | tightest ih | alone ih | lastArgument ih => exact ih
  case postfixed ih => exact ih.mono beginsExpression_of_beginsPrimary
  case set ih _ => exact ih.append.mono beginsExpression_of_beginsPrimary
  case join ih _ | invoke ih | invokeWith ih _ | get ih | argument ih _ | evaluate ih =>
    exact ih.append
  case assign hk _ _ _ =>
    exact beginsWith_cons (by simp [hk, Token.Kind.beginsExpression, Token.Kind.beginsPrimary])
  case prefixed hk _ _ => exact beginsWith_cons (by simp [Token.Kind.beginsExpression, hk])
  case literal hk =>
    rcases hk with hk | hk <;> exact beginsWith_cons (by simp [hk, Token.Kind.beginsPrimary])
  case kwFalse hk | kwTrue hk | kwNil hk | name hk | this hk | super hk _ _ | grouping hk _ _ _ =>
    exact beginsWith_cons (by simp [hk, Token.Kind.beginsPrimary])
  case evaluation ih => exact ih.mono fun kind hk => by simp [hk]
  case statement ih => exact ih.mono fun kind hk => by simp [hk]
  case print hk _ _ _ | ret hk _ _ _ | block hk _ _ _ | ifThen hk _ _ _ _ _ _
    | ifThenElse hk _ _ _ _ _ _ _ _ _ | whileLoop hk _ _ _ _ _ _
    | forLoop hk _ _ _ _ _ _ _ _ _ _ _ =>
    exact beginsWith_cons (by simp [hk, Token.Kind.beginsControl])
  case varDecl hk _ _ | functionDecl hk _ _ | classDecl hk _ _ _ _ _
    | subclassDecl hk _ _ _ _ _ _ _ =>
    exact beginsWith_cons (by simp [hk, Token.Kind.beginsDeclaration])
  case function hk _ _ _ _ _ => exact beginsWith_cons (by simp [hk])

end Lox
