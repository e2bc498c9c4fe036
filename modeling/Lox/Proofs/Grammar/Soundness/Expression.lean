import Lox.Proofs.Grammar.Derivation
import Lox.Proofs.Grammar.Steps

/-! What a parser reads without a fault is derived by the grammar from the tokens that it has
passed. A parser never forgets a fault, so a reading without one has none on the way. -/

namespace Lox.Parser

variable {α : Type} {c d : Cursor} {fuel : Nat}

/-- Without a fault, a value is derived from the tokens passed. -/
def Sound (x : Parser α) (phrase : α → Phrase) : Prop :=
  ∀ c a d, Yields x c a d → d.errors = [] →
    c.errors = [] ∧ ∃ ts, c.rest = ts ++ d.rest ∧ Derives c.nextId ts (phrase a) d.nextId

/-- Without a fault, a derivation that ends where the parser begins is continued. -/
def Extends (x : Parser α) (before : Phrase) (phrase : α → Phrase) : Prop :=
  ∀ c a d, Yields x c a d → d.errors = [] →
    c.errors = [] ∧ ∃ ts, c.rest = ts ++ d.rest ∧
      ∀ n us, Derives n us before c.nextId → Derives n (us ++ ts) (phrase a) d.nextId

lemma yields_limit {count : Nat} {what : String} {rule : Rule} {u : Unit}
    (h : Yields (limit count what rule) c u d) (hd : d.errors = []) :
    c = d ∧ count < maxArguments := by
  simp only [limit] at h
  split at h
  · simp only [yields_bind, yields_faultHere, yields_report] at h
    obtain ⟨_, _, _, rfl⟩ := h
    simp at hd
  · rename_i hc
    simp only [yields_pure] at h
    exact ⟨h.2, by omega⟩

/-! ### Expressions -/

lemma primary_sound {expression : Parser Expr} (h : Sound expression .expression) :
    Sound (primary expression) .primary := by
  intro c e d hy hd
  simp only [primary, yields_bind, yields_peek] at hy
  obtain ⟨next, _, ⟨rfl, rfl⟩, hy⟩ := hy
  rcases hr : c.rest with _ | ⟨t, rest⟩
  · simp [hr, yields_fail] at hy
  simp only [hr, List.head?_cons] at hy
  split at hy
  case h_1 hk | h_2 hk | h_3 hk =>
    simp only [yields_bind, yields_skip, yields_pure, hr, List.tail_cons] at hy
    obtain ⟨_, _, rfl, rfl, rfl⟩ := hy
    exact ⟨hd, [t], rfl, by first | exact .kwFalse hk | exact .kwTrue hk | exact .kwNil hk⟩
  case h_4 hk =>
    simp only [yields_bind, yields_skip, yields_pure, hr, List.tail_cons] at hy
    obtain ⟨_, _, rfl, rfl, rfl⟩ := hy
    exact ⟨hd, [t], rfl, .literal (.inl hk)⟩
  case h_5 hk =>
    simp only [yields_bind, yields_skip, yields_pure, hr, List.tail_cons] at hy
    obtain ⟨_, _, rfl, rfl, rfl⟩ := hy
    exact ⟨hd, [t], rfl, .literal (.inr hk)⟩
  case h_6 hk =>
    simp only [yields_bind, yields_skip, yields_newReference, yields_pure, hr, List.tail_cons] at hy
    obtain ⟨_, _, rfl, _, _, ⟨rfl, rfl⟩, rfl, rfl⟩ := hy
    exact ⟨hd, [t], rfl, .name hk⟩
  case h_7 hk =>
    simp only [yields_bind, yields_skip, yields_newReference, yields_pure, hr, List.tail_cons] at hy
    obtain ⟨_, _, rfl, _, _, ⟨rfl, rfl⟩, rfl, rfl⟩ := hy
    exact ⟨hd, [t], rfl, .this hk⟩
  case h_8 hk =>
    simp only [yields_bind, yields_skip, yields_expect, yields_expectName, yields_newReference,
      yields_pure, hr, List.tail_cons] at hy
    obtain ⟨_, _, rfl, dot, _, ⟨_, rfl, hdot, rfl⟩, _, _, ⟨method, _, rfl, hm, rfl, rfl⟩, _, _,
      ⟨rfl, rfl⟩, rfl, rfl⟩ := hy
    exact ⟨hd, [t, dot, method], rfl, .super hk hdot hm⟩
  case h_9 hk =>
    simp only [yields_bind, yields_skip, yields_expect, yields_pure, hr, List.tail_cons] at hy
    obtain ⟨_, _, rfl, inner, c₁, hi, closing, _, ⟨_, hrest, hc, rfl⟩, rfl, rfl⟩ := hy
    obtain ⟨herr, ts, hts, hder⟩ := h _ _ _ hi hd
    exact ⟨herr, t :: (ts ++ [closing]), by simp_all, .grouping hk hder hc⟩
  case h_10 => simp [yields_fail] at hy

lemma operand_sound {operators : Tier → Parser Expr} {unary : Parser Expr}
    (ho : ∀ tier, Sound (operators tier) (.operators tier)) (hu : Sound unary .unary)
    (tier : Tier) : Sound (operand operators unary tier) (.operand tier) := by
  intro c e d hy hd
  rw [operand] at hy
  split at hy
  case h_1 tighter ht =>
    obtain ⟨herr, ts, hts, hder⟩ := ho tighter c e d hy hd
    exact ⟨herr, ts, hts, .tighter ht hder⟩
  case h_2 ht =>
    obtain ⟨herr, ts, hts, hder⟩ := hu c e d hy hd
    exact ⟨herr, ts, hts, .tightest ht hder⟩

lemma derives_read {n m : Nat} {ts : List Token} {p : Phrase} {r : Reference}
    (h : Derives n ts p m)
    (hp : (∃ tier, p = .operators tier (.read r)) ∨ (∃ tier, p = .operand tier (.read r)) ∨
      p = .unary (.read r) ∨ p = .call (.read r) ∨ p = .primary (.read r)) :
    ∃ t, ts = [t] ∧ t.kind = .identifier ∧ r = ⟨n, t.name⟩ ∧ m = n + 1 := by
  induction h with
  | first _ ih | tighter _ _ ih | tightest _ _ ih | postfixed _ ih | alone _ ih =>
    apply ih
    simp_all
  | @join _ _ _ _ _ _ _ connective => cases connective <;> simp [Connective.join] at hp
  | @name n t hk =>
    obtain rfl : r = ⟨n, t.name⟩ := by simpa [eq_comm] using hp
    exact ⟨t, rfl, hk, rfl, rfl⟩
  | _ => simp at hp

lemma derives_get {n m : Nat} {ts : List Token} {p : Phrase} {object : Expr} {property : Name}
    (h : Derives n ts p m)
    (hp : (∃ tier, p = .operators tier (.get object property)) ∨
      (∃ tier, p = .operand tier (.get object property)) ∨
      p = .unary (.get object property) ∨ p = .call (.get object property)) :
    ∃ us dot t, ts = us ++ [dot, t] ∧ dot.kind = .dot ∧ t.kind = .identifier ∧
      property = t.name ∧ Derives n us (.call object) m := by
  induction h with
  | first _ ih | tighter _ _ ih | tightest _ _ ih | postfixed _ ih =>
    apply ih
    simp_all
  | @join _ _ _ _ _ _ _ connective => cases connective <;> simp [Connective.join] at hp
  | alone h => cases h <;> simp at hp
  | @get n m dot t us o h hd ht =>
    simp only [reduceCtorEq, exists_false, Phrase.call.injEq, Expr.get.injEq, false_or] at hp
    obtain ⟨rfl, rfl⟩ := hp
    exact ⟨us, dot, t, rfl, hd, ht, rfl, h⟩
  | _ => simp at hp

structure ExpressionsSound (fuel : Nat) : Prop where
  expression : Sound (Parser.expression fuel) .expression
  operators : ∀ tier, Sound (Parser.operators fuel tier) (.operators tier)
  operatorsAfter : ∀ tier left,
    Extends (Parser.operatorsAfter fuel tier left) (.operators tier left) (.operators tier)
  unary : Sound (Parser.unary fuel) .unary
  callsAfter : ∀ callee, Extends (Parser.callsAfter fuel callee) (.call callee) .call
  arguments : ∀ count, Sound (Parser.arguments fuel count) .arguments
  arguments_length : ∀ count c given d, Yields (Parser.arguments fuel count) c given d →
    d.errors = [] → count + given.length ≤ maxArguments

lemma assignTo_sound {fault : ParseError} {target value e : Expr}
    (hy : Yields (assignTo fault target value) c e d) (hd : d.errors = []) :
    c = d ∧ ∀ {n k m : Nat} {ts us : List Token} {equal : Token},
      Derives n ts (.operators .disjunction target) k → equal.kind = .equal →
      Derives k us (.expression value) m → Derives n (ts ++ equal :: us) (.expression e) m := by
  unfold assignTo at hy
  split at hy
  case h_1 r =>
    simp only [yields_pure] at hy
    obtain ⟨rfl, rfl⟩ := hy
    refine ⟨rfl, fun ht hk hv => ?_⟩
    obtain ⟨t, rfl, htk, rfl, rfl⟩ := derives_read ht (.inl ⟨_, rfl⟩)
    exact .assign htk hk hv
  case h_2 object property =>
    simp only [yields_pure] at hy
    obtain ⟨rfl, rfl⟩ := hy
    refine ⟨rfl, fun ht hk hv => ?_⟩
    obtain ⟨vs, dot, t, rfl, hdot, htk, rfl, ho⟩ := derives_get ht (.inl ⟨_, rfl⟩)
    simpa using Derives.set ho hdot htk hk hv
  case h_3 =>
    simp only [yields_bind, yields_report] at hy
    obtain ⟨_, _, rfl, hy⟩ := hy
    simp only [yields_pure] at hy
    obtain ⟨_, rfl⟩ := hy
    simp at hd

lemma expression_sound (h : ExpressionsSound fuel) : Sound (expression (fuel + 1)) .expression := by
  intro c e d hy hd
  simp only [expression, yields_bind, yields_check] at hy
  obtain ⟨target, c₁, ht, found, _, ⟨hf, rfl⟩, hy⟩ := hy
  split at hy
  · rename_i hfound
    simp only [yields_bind, yields_faultHere, yields_skip] at hy
    obtain ⟨fault, _, ⟨_, rfl⟩, _, _, rfl, value, c₂, hv, hy⟩ := hy
    obtain ⟨equal, rest, hr, hk⟩ : ∃ equal rest, c₁.rest = equal :: rest ∧ equal.kind = .equal := by
      rcases hr : c₁.rest with _ | ⟨equal, rest⟩ <;> simp_all
    obtain ⟨rfl, hassign⟩ := assignTo_sound hy hd
    obtain ⟨herr, us, hus, hvalue⟩ := h.expression _ _ _ hv hd
    obtain ⟨herr, ts, hts, htarget⟩ := h.operators _ _ _ _ ht herr
    exact ⟨herr, ts ++ equal :: us, by simp_all, hassign htarget hk hvalue⟩
  · simp only [yields_pure] at hy
    obtain ⟨rfl, rfl⟩ := hy
    obtain ⟨herr, ts, hts, hder⟩ := h.operators _ _ _ _ ht hd
    exact ⟨herr, ts, hts, .loosest hder⟩

lemma operators_sound (h : ExpressionsSound fuel) (tier : Tier) :
    Sound (operators (fuel + 1) tier) (.operators tier) := by
  intro c e d hy hd
  simp only [operators, yields_bind] at hy
  obtain ⟨left, c₁, hl, ha⟩ := hy
  obtain ⟨herr, us, hus, hext⟩ := h.operatorsAfter _ _ _ _ _ ha hd
  obtain ⟨herr, ts, hts, hder⟩ := operand_sound h.operators h.unary tier _ _ _ hl herr
  exact ⟨herr, ts ++ us, by simp [hts, hus], hext _ _ (.first hder)⟩

lemma operatorsAfter_sound (h : ExpressionsSound fuel) (tier : Tier) (left : Expr) :
    Extends (operatorsAfter (fuel + 1) tier left) (.operators tier left) (.operators tier) := by
  intro c e d hy hd
  simp only [operatorsAfter, peekConnective, yields_bind, yields_peek, yields_pure] at hy
  obtain ⟨next, _, ⟨_, _, ⟨rfl, rfl⟩, rfl, rfl⟩, hy⟩ := hy
  split at hy
  · simp only [yields_pure] at hy
    obtain ⟨rfl, rfl⟩ := hy
    exact ⟨hd, [], rfl, fun n us hus => by simpa using hus⟩
  · rename_i connective line hnext
    simp only [Option.bind_eq_some_iff, Option.map_eq_some_iff, Prod.mk.injEq] at hnext
    obtain ⟨op, hop, _, hcon, rfl, rfl⟩ := hnext
    simp only [yields_bind, yields_skip] at hy
    obtain ⟨_, _, rfl, right, c₁, hr, ha⟩ := hy
    obtain ⟨herr, us, hus, hext⟩ := h.operatorsAfter _ _ _ _ _ ha hd
    obtain ⟨herr, ts, hts, hder⟩ := operand_sound h.operators h.unary tier _ _ _ hr herr
    obtain ⟨rest, hrest⟩ := List.head?_eq_some_iff.mp hop
    refine ⟨herr, op :: (ts ++ us), ?_, ?_⟩
    · simp_all
    · intro n vs hvs
      simpa using hext n (vs ++ op :: ts) (.join hvs hcon hder)

lemma unary_sound (h : ExpressionsSound fuel) : Sound (unary (fuel + 1)) .unary := by
  intro c e d hy hd
  simp only [unary, peekUnaryOp, yields_bind, yields_peek, yields_pure] at hy
  obtain ⟨next, _, ⟨_, _, ⟨rfl, rfl⟩, rfl, rfl⟩, hy⟩ := hy
  split at hy
  · simp only [yields_bind] at hy
    obtain ⟨callee, c₁, hp, ha⟩ := hy
    obtain ⟨herr, us, hus, hext⟩ := h.callsAfter _ _ _ _ ha hd
    obtain ⟨herr, ts, hts, hder⟩ := primary_sound h.expression _ _ _ hp herr
    exact ⟨herr, ts ++ us, by simp [hts, hus], .postfixed (hext _ _ (.alone hder))⟩
  · rename_i kind line hnext
    simp only [Option.bind_eq_some_iff, Option.map_eq_some_iff, Prod.mk.injEq] at hnext
    obtain ⟨op, hop, _, hkind, rfl, rfl⟩ := hnext
    simp only [yields_bind, yields_skip, yields_pure] at hy
    obtain ⟨_, _, rfl, operand, c₁, ho, rfl, rfl⟩ := hy
    obtain ⟨herr, ts, hts, hder⟩ := h.unary _ _ _ ho hd
    obtain ⟨rest, hrest⟩ := List.head?_eq_some_iff.mp hop
    exact ⟨herr, op :: ts, by simp_all, .prefixed hkind hder⟩

lemma callsAfter_sound (h : ExpressionsSound fuel) (callee : Expr) :
    Extends (callsAfter (fuel + 1) callee) (.call callee) .call := by
  intro c e d hy hd
  simp only [callsAfter, yields_bind, yields_accept] at hy
  obtain ⟨opens, c₁, ho, hy⟩ := hy
  cases opens with
  | true =>
    obtain ⟨opening, rest, hrest, hopen, rfl⟩ := ho
    simp only [if_true, yields_bind, yields_check] at hy
    obtain ⟨closed, _, ⟨hclosed, rfl⟩, hy⟩ := hy
    cases closed with
    | true =>
      simp only [if_true, yields_bind, yields_pure, yields_expect] at hy
      obtain ⟨_, _, ⟨rfl, rfl⟩, closing, _, ⟨rest', hrest', hclose, rfl⟩, ha⟩ := hy
      obtain ⟨herr, us, hus, hext⟩ := h.callsAfter _ _ _ _ ha hd
      refine ⟨herr, opening :: closing :: us, by simp_all, fun n ts hts => ?_⟩
      simpa using hext n _ (.invoke hts hopen hclose)
    | false =>
      simp only [Bool.false_eq_true, if_false, yields_bind, yields_expect] at hy
      obtain ⟨given, c₂, hg, closing, _, ⟨rest', hrest', hclose, rfl⟩, ha⟩ := hy
      obtain ⟨herr, us, hus, hext⟩ := h.callsAfter _ _ _ _ ha hd
      have hlen := h.arguments_length _ _ _ _ hg herr
      obtain ⟨herr, vs, hvs, hder⟩ := h.arguments _ _ _ _ hg herr
      refine ⟨herr, opening :: (vs ++ closing :: us), by simp_all, fun n ts hts => ?_⟩
      simpa using hext n _ (.invokeWith hts hopen hder (by omega) hclose)
  | false =>
    obtain ⟨_, rfl⟩ := ho
    simp only [Bool.false_eq_true, if_false, yields_bind, yields_accept] at hy
    obtain ⟨dotted, c₁, hdot, hy⟩ := hy
    cases dotted with
    | true =>
      obtain ⟨dot, rest, hrest, hdot, rfl⟩ := hdot
      simp only [if_true, yields_bind, yields_expectName] at hy
      obtain ⟨_, _, ⟨t, rest', hrest', ht, rfl, rfl⟩, ha⟩ := hy
      obtain ⟨herr, us, hus, hext⟩ := h.callsAfter _ _ _ _ ha hd
      refine ⟨herr, dot :: t :: us, by simp_all, fun n ts hts => ?_⟩
      simpa using hext n _ (.get hts hdot ht)
    | false =>
      obtain ⟨_, rfl⟩ := hdot
      simp only [Bool.false_eq_true, if_false, yields_pure] at hy
      obtain ⟨rfl, rfl⟩ := hy
      exact ⟨hd, [], rfl, fun n us hus => by simpa using hus⟩

lemma arguments_sound (h : ExpressionsSound fuel) (count : Nat) {given : List Expr}
    (hy : Yields (arguments (fuel + 1) count) c given d) (hd : d.errors = []) :
    count + given.length ≤ maxArguments ∧ c.errors = [] ∧
      ∃ ts, c.rest = ts ++ d.rest ∧ Derives c.nextId ts (.arguments given) d.nextId := by
  simp only [arguments, yields_bind, yields_accept] at hy
  obtain ⟨_, c₁, hlim, argument, c₂, he, more, c₃, hm, hy⟩ := hy
  cases more with
  | true =>
    obtain ⟨comma, rest, hrest, hcomma, rfl⟩ := hm
    simp only [if_true, yields_bind, yields_pure] at hy
    obtain ⟨others, _, ho, rfl, rfl⟩ := hy
    have hlen := h.arguments_length _ _ _ _ ho hd
    obtain ⟨herr, us, hus, hothers⟩ := h.arguments _ _ _ _ ho hd
    obtain ⟨herr, ts, hts, hder⟩ := h.expression _ _ _ he herr
    obtain ⟨rfl, _⟩ := yields_limit hlim herr
    refine ⟨by simp only [List.length_cons]; omega, herr, ts ++ comma :: us, by simp_all, ?_⟩
    exact .argument hder hcomma hothers
  | false =>
    obtain ⟨_, rfl⟩ := hm
    simp only [Bool.false_eq_true, if_false, yields_pure] at hy
    obtain ⟨rfl, rfl⟩ := hy
    obtain ⟨herr, ts, hts, hder⟩ := h.expression _ _ _ he hd
    obtain ⟨rfl, hcount⟩ := yields_limit hlim herr
    exact ⟨by simp only [List.length_singleton]; omega, herr, ts, hts, .lastArgument hder⟩

lemma expressionsSound (fuel : Nat) : ExpressionsSound fuel := by
  induction fuel with
  | zero =>
    constructor
    case arguments_length =>
      intro count c given d hy
      simp [arguments] at hy
    all_goals
      intros
      intro c e d hy
      simp [expression, operators, operatorsAfter, unary, callsAfter, arguments] at hy
  | succ fuel ih =>
    exact
      { expression := expression_sound ih
        operators := operators_sound ih
        operatorsAfter := operatorsAfter_sound ih
        unary := unary_sound ih
        callsAfter := callsAfter_sound ih
        arguments := fun count c given d hy hd => (arguments_sound ih count hy hd).2
        arguments_length := fun count c given d hy hd => (arguments_sound ih count hy hd).1 }

end Lox.Parser
