import Lox.Proofs.Grammar.Heads
import Lox.Proofs.Grammar.Steps

/-! What the grammar derives is read by the parsers, from the same tokens and with the same
identities, if what follows does not continue it and the fuel suffices. A loop of the parser is met
in the middle: after some tokens it is as if it had just begun with the tree that they make up. -/

namespace Lox

/-- What follows continues no operand from a level of tightness on. -/
def StopsAt (level : Nat) (rest : List Token) : Prop :=
  ∀ t ∈ rest.head?, t.kind ≠ .leftParen ∧ t.kind ≠ .dot ∧
    ∀ tier : Tier, level ≤ tier.tightness → tier.connective? t.kind = none

lemma StopsAt.mono {low high : Nat} {rest : List Token} (h : StopsAt low rest) (hle : low ≤ high) :
    StopsAt high rest :=
  fun t ht => ⟨(h t ht).1, (h t ht).2.1, fun tier hh => (h t ht).2.2 tier (Nat.le_trans hle hh)⟩

lemma stopsAt_connective {tier : Tier} {op : Token} {connective : Connective} {rest : List Token}
    (h : tier.connective? op.kind = some connective) :
    StopsAt (tier.tightness + 1) (op :: rest) := by
  simp only [StopsAt, List.head?_cons, Option.mem_def, Option.some.injEq, forall_eq']
  refine ⟨?_, ?_, ?_⟩
  · intro hk
    rw [hk] at h
    cases tier <;> simp [Tier.connective?] at h
  · intro hk
    rw [hk] at h
    cases tier <;> simp [Tier.connective?] at h
  · intro other hle
    cases tier <;> cases other <;> simp only [Tier.tightness] at hle <;> first
      | omega
      | (cases hk : op.kind <;> simp_all [Tier.connective?])

namespace Parser

/-- The parser reads a value from some tokens and stops in front of the rest. -/
abbrev Reads {α : Type} (x : Parser α) (n : Nat) (ts : List Token) (a : α) (m : Nat)
    (rest : List Token) : Prop :=
  Yields x ⟨ts ++ rest, n, []⟩ a ⟨rest, m, []⟩

/-- After some tokens the one parser goes on as the other begins. -/
abbrev Becomes {α : Type} (x : Parser α) (n : Nat) (ts : List Token) (y : Parser α) (m : Nat)
    (rest : List Token) : Prop :=
  ∀ a d, Yields y ⟨rest, m, []⟩ a d → Yields x ⟨ts ++ rest, n, []⟩ a d

def ReadsExpression (n : Nat) (ts : List Token) (value : Expr) (m : Nat) : Prop :=
  ∀ fuel rest, 16 * ts.length + 9 ≤ fuel → StopsAt 0 rest →
    (∀ t ∈ rest.head?, t.kind ≠ .equal) → Reads (expression fuel) n ts value m rest

def ReadsOperators (n : Nat) (ts : List Token) (tier : Tier) (value : Expr) (m : Nat) : Prop :=
  ∀ fuel rest, 16 * ts.length + 7 ≤ fuel + tier.tightness → StopsAt (tier.tightness + 1) rest →
    ∃ left, fuel ≤ left + ts.length ∧
      Becomes (operators (fuel + 1) tier) n ts (operatorsAfter left tier value) m rest

def ReadsOperand (n : Nat) (ts : List Token) (tier : Tier) (value : Expr) (m : Nat) : Prop :=
  ∀ fuel rest, 16 * ts.length + 7 ≤ fuel + tier.tightness → StopsAt (tier.tightness + 1) rest →
    Reads (operand (operators fuel) (unary fuel) tier) n ts value m rest

def ReadsUnary (n : Nat) (ts : List Token) (value : Expr) (m : Nat) : Prop :=
  ∀ fuel rest, 16 * ts.length + 2 ≤ fuel → StopsAt 6 rest → Reads (unary fuel) n ts value m rest

def ReadsCall (n : Nat) (ts : List Token) (value : Expr) (m : Nat) : Prop :=
  ∀ fuel rest, 16 * ts.length + 1 ≤ fuel → ∃ left, fuel ≤ left + ts.length ∧
    Becomes (primary (expression fuel) >>= callsAfter fuel) n ts (callsAfter left value) m rest

def ReadsPrimary (n : Nat) (ts : List Token) (value : Expr) (m : Nat) : Prop :=
  ∀ fuel rest, 16 * ts.length + 1 ≤ fuel → Reads (primary (expression fuel)) n ts value m rest

def ReadsArguments (n : Nat) (ts : List Token) (values : List Expr) (m : Nat) : Prop :=
  ∀ fuel rest count, 16 * ts.length + 10 ≤ fuel → count + values.length ≤ maxArguments →
    StopsAt 0 rest → (∀ t ∈ rest.head?, t.kind ≠ .equal ∧ t.kind ≠ .comma) →
    Reads (arguments fuel count) n ts values m rest

variable {n k m : Nat} {ts us rest : List Token} {tier : Tier} {value : Expr}

lemma operatorsAfter_stops {fuel : Nat} (hf : 0 < fuel) (hr : StopsAt tier.tightness rest)
    (n : Nat) : Reads (operatorsAfter fuel tier value) n [] value n rest := by
  obtain ⟨fuel, rfl⟩ := Nat.exists_eq_add_one.mpr hf
  have hnone : (rest.head?.bind fun t => (tier.connective? t.kind).map (·, t.line)) = none := by
    rw [Option.bind_eq_none_iff]
    intro t ht
    rw [(hr t ht).2.2 tier (Nat.le_refl _)]
    rfl
  simp only [operatorsAfter, peekConnective, yields_bind, yields_peek, yields_pure]
  refine ⟨none, _, ⟨_, _, ⟨rfl, rfl⟩, hnone, rfl⟩, ?_⟩
  simp

lemma callsAfter_stops {fuel : Nat} (hf : 0 < fuel) (hr : StopsAt 6 rest) (n : Nat) :
    Reads (callsAfter fuel value) n [] value n rest := by
  obtain ⟨fuel, rfl⟩ := Nat.exists_eq_add_one.mpr hf
  simp only [callsAfter, yields_bind, yields_accept]
  refine ⟨false, _, ⟨fun t ht => (hr t ht).1, rfl⟩, ?_⟩
  simp only [Bool.false_eq_true, if_false, yields_bind, yields_accept]
  refine ⟨false, _, ⟨fun t ht => (hr t ht).2.1, rfl⟩, ?_⟩
  simp

lemma Becomes.reads {α : Type} {x y : Parser α} {a : α} (h : Becomes x n ts y m rest)
    (hy : Reads y m [] a m rest) : Reads x n ts a m rest :=
  h a _ hy

lemma ReadsOperators.reads (h : ReadsOperators n ts tier value m) {fuel : Nat}
    (hf : 16 * ts.length + 8 ≤ fuel + tier.tightness) (hr : StopsAt tier.tightness rest) :
    Reads (operators fuel tier) n ts value m rest := by
  have ht := tier.tightness_le
  obtain ⟨fuel, rfl⟩ := Nat.exists_eq_add_one.mpr (show 0 < fuel by omega)
  obtain ⟨left, hl, hb⟩ := h fuel rest (by omega) (hr.mono (Nat.le_succ _))
  exact hb.reads (operatorsAfter_stops (by omega) hr m)

lemma readsOperand_of_operators {inner : Tier} (hi : tier.tighter? = some inner)
    (h : ReadsOperators n ts inner value m) : ReadsOperand n ts tier value m := by
  intro fuel rest hf hr
  have ht := Tier.tightness_of_tighter? hi
  simp only [operand, hi]
  exact h.reads (by omega) (ht ▸ hr)

lemma readsOperand_of_unary (hi : tier.tighter? = none) (h : ReadsUnary n ts value m) :
    ReadsOperand n ts tier value m := by
  intro fuel rest hf hr
  have ht := Tier.tightness_of_tightest hi
  rw [ht] at hf hr
  simp only [operand, hi]
  exact h fuel rest (by omega) hr

lemma readsOperators_of_operand (h : ReadsOperand n ts tier value m) :
    ReadsOperators n ts tier value m := by
  intro fuel rest hf hr
  refine ⟨fuel, by omega, fun a d hy => ?_⟩
  simp only [operators, yields_bind]
  exact ⟨value, _, h fuel rest hf hr, hy⟩

lemma readsOperators_join {op : Token} {connective : Connective} {left right : Expr}
    (hl : ReadsOperators n ts tier left k) (hc : tier.connective? op.kind = some connective)
    (hr : ReadsOperand k us tier right m) :
    ReadsOperators n (ts ++ op :: us) tier (connective.join op.line left right) m := by
  intro fuel rest hf hstop
  simp only [List.length_append, List.length_cons] at hf
  have ht := tier.tightness_le
  obtain ⟨rounds, hrounds, hb⟩ := hl fuel (op :: us ++ rest) (by omega) (stopsAt_connective hc)
  obtain ⟨rounds, rfl⟩ := Nat.exists_eq_add_one.mpr (show 0 < rounds by omega)
  refine ⟨rounds, by simp only [List.length_append, List.length_cons]; omega, fun a d hy => ?_⟩
  rw [List.append_assoc]
  refine hb a d ?_
  simp only [operatorsAfter, peekConnective, yields_bind, yields_peek, yields_pure]
  refine ⟨some (connective, op.line), _, ⟨_, _, ⟨rfl, rfl⟩, by simp [hc], rfl⟩, ?_⟩
  simp only [yields_bind, yields_skip]
  exact ⟨(), _, rfl, right, _, hr rounds rest (by omega) hstop, hy⟩

lemma readsUnary_of_call (h : ReadsCall n ts value m)
    (hb : BeginsWith Token.Kind.beginsPrimary ts) : ReadsUnary n ts value m := by
  intro fuel rest hf hr
  obtain ⟨t, us, rfl, ht⟩ := hb
  have hnone : UnaryOp.ofKind? t.kind = none := by
    cases hk : t.kind <;> simp_all [Token.Kind.beginsPrimary, UnaryOp.ofKind?]
  obtain ⟨fuel, rfl⟩ := Nat.exists_eq_add_one.mpr (show 0 < fuel by omega)
  obtain ⟨left, hl, hbecomes⟩ := h fuel rest (by omega)
  simp only [unary, peekUnaryOp, yields_bind, yields_peek, yields_pure]
  refine ⟨none, _, ⟨_, _, ⟨rfl, rfl⟩, by simp [hnone], rfl⟩, ?_⟩
  exact hbecomes.reads (callsAfter_stops (by omega) hr m)

lemma readsUnary_prefixed {op : Token} {kind : UnaryOp} (hk : UnaryOp.ofKind? op.kind = some kind)
    (h : ReadsUnary n ts value m) :
    ReadsUnary n (op :: ts) (.unary kind op.line value) m := by
  intro fuel rest hf hr
  simp only [List.length_cons] at hf
  obtain ⟨fuel, rfl⟩ := Nat.exists_eq_add_one.mpr (show 0 < fuel by omega)
  simp only [unary, peekUnaryOp, yields_bind, yields_peek, yields_pure]
  refine ⟨some (kind, op.line), _, ⟨_, _, ⟨rfl, rfl⟩, by simp [hk], rfl⟩, ?_⟩
  simp only [yields_bind, yields_skip, yields_pure]
  exact ⟨(), _, rfl, value, _, h fuel rest (by omega) hr, rfl, rfl⟩

lemma readsOperators_of_unary (h : ReadsUnary n ts value m) (tier : Tier) :
    ReadsOperators n ts tier value m := by
  have factor : ReadsOperators n ts .factor value m :=
    readsOperators_of_operand (readsOperand_of_unary rfl h)
  have up {tier inner : Tier} (ht : tier.tighter? = some inner)
      (hi : ReadsOperators n ts inner value m) : ReadsOperators n ts tier value m :=
    readsOperators_of_operand (readsOperand_of_operators ht hi)
  have term : ReadsOperators n ts .term value m := up rfl factor
  have comparison : ReadsOperators n ts .comparison value m := up rfl term
  have equality : ReadsOperators n ts .equality value m := up rfl comparison
  have conjunction : ReadsOperators n ts .conjunction value m := up rfl equality
  cases tier with
  | factor => exact factor
  | term => exact term
  | comparison => exact comparison
  | equality => exact equality
  | conjunction => exact conjunction
  | disjunction => exact up rfl conjunction

lemma readsCall_of_primary (h : ReadsPrimary n ts value m) : ReadsCall n ts value m := by
  intro fuel rest hf
  refine ⟨fuel, by omega, fun a d hy => ?_⟩
  simp only [yields_bind]
  exact ⟨value, _, h fuel rest hf, hy⟩

lemma ReadsCall.after (h : ReadsCall n ts value m) {us : List Token} {after : Expr} {k : Nat}
    (hstep : ∀ fuel rest a d, 16 * us.length ≤ fuel →
      Yields (callsAfter fuel after) ⟨rest, k, []⟩ a d →
      Yields (callsAfter (fuel + 1) value) ⟨us ++ rest, m, []⟩ a d)
    (hne : us ≠ []) : ReadsCall n (ts ++ us) after k := by
  intro fuel rest hf
  have hpos := List.length_pos_iff.mpr hne
  simp only [List.length_append] at hf
  obtain ⟨left, hl, hb⟩ := h fuel (us ++ rest) (by omega)
  obtain ⟨left, rfl⟩ := Nat.exists_eq_add_one.mpr (show 0 < left by omega)
  refine ⟨left, by simp only [List.length_append]; omega, fun a d hy => ?_⟩
  rw [List.append_assoc]
  exact hb a d (hstep left rest a d (by omega) hy)

lemma readsCall_get {dot property : Token} (h : ReadsCall n ts value m) (hd : dot.kind = .dot)
    (hp : property.kind = .identifier) :
    ReadsCall n (ts ++ [dot, property]) (.get value property.name) m := by
  refine h.after (fun fuel rest a d _ hy => ?_) (by simp)
  simp only [callsAfter, yields_bind, yields_accept]
  refine ⟨false, _, ⟨by simp [hd], rfl⟩, ?_⟩
  simp only [Bool.false_eq_true, if_false, yields_bind, yields_accept]
  refine ⟨true, _, ⟨dot, _, rfl, hd, rfl⟩, ?_⟩
  simp only [if_true, yields_bind, yields_expectName]
  exact ⟨property.name, _, ⟨property, _, rfl, hp, rfl, rfl⟩, hy⟩

lemma readsCall_invoke {opening closing : Token} (h : ReadsCall n ts value m)
    (ho : opening.kind = .leftParen) (hc : closing.kind = .rightParen) :
    ReadsCall n (ts ++ [opening, closing]) (.call value [] closing.line) m := by
  refine h.after (fun fuel rest a d _ hy => ?_) (by simp)
  simp only [callsAfter, yields_bind, yields_accept]
  refine ⟨true, _, ⟨opening, _, rfl, ho, rfl⟩, ?_⟩
  simp only [if_true, yields_bind, yields_check]
  refine ⟨true, _, ⟨by simp [hc], rfl⟩, ?_⟩
  simp only [if_true, yields_bind, yields_pure, yields_expect]
  exact ⟨[], _, ⟨rfl, rfl⟩, closing, _, ⟨_, rfl, hc, rfl⟩, hy⟩

lemma readsCall_invokeWith {opening closing : Token} {given : List Expr}
    (h : ReadsCall n ts value k) (ho : opening.kind = .leftParen)
    (hg : ReadsArguments k us given m) (hb : BeginsWith Token.Kind.beginsExpression us)
    (hlen : given.length ≤ maxArguments) (hc : closing.kind = .rightParen) :
    ReadsCall n (ts ++ opening :: (us ++ [closing])) (.call value given closing.line) m := by
  refine h.after (fun fuel rest a d hf hy => ?_) (by simp)
  simp only [List.length_cons, List.length_append, List.length_nil] at hf
  simp only [List.cons_append, List.append_assoc, List.nil_append]
  simp only [callsAfter, yields_bind, yields_accept]
  refine ⟨true, _, ⟨opening, _, rfl, ho, rfl⟩, ?_⟩
  simp only [if_true, yields_bind, yields_check]
  refine ⟨false, _, ⟨hb.check_append (by decide), rfl⟩, ?_⟩
  simp only [Bool.false_eq_true, if_false, yields_bind, yields_expect]
  refine ⟨given, _, hg fuel (closing :: rest) 0 (by omega) (by omega) ?_ (by simp [hc]),
    closing, _, ⟨_, rfl, hc, rfl⟩, hy⟩
  simp [StopsAt, hc, Tier.connective?]

lemma readsPrimary_grouping {opening closing : Token} (ho : opening.kind = .leftParen)
    (h : ReadsExpression n ts value m) (hc : closing.kind = .rightParen) :
    ReadsPrimary n (opening :: (ts ++ [closing])) (.grouping value) m := by
  intro fuel rest hf
  simp only [List.length_cons, List.length_append, List.length_nil] at hf
  simp only [primary, yields_bind, yields_peek]
  simp only [List.cons_append, List.append_assoc, List.nil_append]
  refine ⟨some opening, _, ⟨rfl, rfl⟩, ?_⟩
  simp only [ho, yields_bind, yields_skip, yields_expect, yields_pure]
  exact ⟨(), _, rfl, value, _, h fuel (closing :: rest) (by omega)
    (by simp [StopsAt, hc, Tier.connective?]) (by simp [hc]), closing, _, ⟨_, rfl, hc, rfl⟩,
    rfl, rfl⟩

lemma readsPrimary_name {t : Token} (hk : t.kind = .identifier) :
    ReadsPrimary n [t] (.read ⟨n, t.name⟩) (n + 1) := by
  intro fuel rest _
  simp only [List.cons_append, List.nil_append, primary, yields_bind, yields_peek]
  refine ⟨some t, _, ⟨rfl, rfl⟩, ?_⟩
  simp [hk, yields_skip, yields_newReference]

lemma readsPrimary_this {t : Token} (hk : t.kind = .kwThis) :
    ReadsPrimary n [t] (.this ⟨n, t.name⟩) (n + 1) := by
  intro fuel rest _
  simp only [List.cons_append, List.nil_append, primary, yields_bind, yields_peek]
  refine ⟨some t, _, ⟨rfl, rfl⟩, ?_⟩
  simp [hk, yields_skip, yields_newReference]

lemma readsPrimary_super {t dot method : Token} (hk : t.kind = .kwSuper) (hd : dot.kind = .dot)
    (hm : method.kind = .identifier) :
    ReadsPrimary n [t, dot, method] (.super ⟨n, t.name⟩ method.name) (n + 1) := by
  intro fuel rest _
  simp only [List.cons_append, List.nil_append, primary, yields_bind, yields_peek]
  refine ⟨some t, _, ⟨rfl, rfl⟩, ?_⟩
  simp only [hk, yields_bind, yields_skip, yields_expect, yields_expectName, yields_newReference,
    yields_pure]
  exact ⟨(), _, rfl, dot, _, ⟨_, rfl, hd, rfl⟩, method.name, _, ⟨method, _, rfl, hm, rfl, rfl⟩, _, _,
    ⟨rfl, rfl⟩, rfl, rfl⟩

lemma readsPrimary_literal {t : Token} {v : Literal}
    (hk : t.kind = .kwFalse ∧ v = .boolean false ∨ t.kind = .kwTrue ∧ v = .boolean true ∨
      t.kind = .kwNil ∧ v = .nil ∨ (t.kind = .number ∨ t.kind = .string) ∧ v = t.literal.getD .nil) :
    ReadsPrimary n [t] (.literal v) n := by
  intro fuel rest _
  simp only [List.cons_append, List.nil_append, primary, yields_bind, yields_peek]
  refine ⟨some t, _, ⟨rfl, rfl⟩, ?_⟩
  rcases hk with ⟨hk, rfl⟩ | ⟨hk, rfl⟩ | ⟨hk, rfl⟩ | ⟨hk | hk, rfl⟩ <;> simp [hk, yields_skip]

lemma yields_limit_below {count : Nat} {what : String} {rule : Rule} (h : count < maxArguments)
    (c : Cursor) : Yields (limit count what rule) c () c := by
  rw [limit, if_neg (by omega)]
  simp

lemma readsArguments_last (h : ReadsExpression n ts value m) :
    ReadsArguments n ts [value] m := by
  intro fuel rest count hf hlen hstop hnext
  obtain ⟨fuel, rfl⟩ := Nat.exists_eq_add_one.mpr (show 0 < fuel by omega)
  have hcount : count < maxArguments := by
    simp only [List.length_singleton] at hlen
    omega
  simp only [arguments, yields_bind, yields_accept]
  refine ⟨(), _, yields_limit_below hcount _, value, _,
    h fuel rest (by omega) hstop (fun t ht => (hnext t ht).1), ?_⟩
  refine ⟨false, _, ⟨fun t ht => (hnext t ht).2, rfl⟩, ?_⟩
  simp

lemma readsArguments_more {comma : Token} {values : List Expr} (h : ReadsExpression n ts value k)
    (hc : comma.kind = .comma) (hs : ReadsArguments k us values m) :
    ReadsArguments n (ts ++ comma :: us) (value :: values) m := by
  intro fuel rest count hf hlen hstop hnext
  simp only [List.length_cons, List.length_append] at hf hlen
  obtain ⟨fuel, rfl⟩ := Nat.exists_eq_add_one.mpr (show 0 < fuel by omega)
  simp only [arguments, yields_bind, yields_accept]
  simp only [List.cons_append, List.append_assoc]
  refine ⟨(), _, yields_limit_below (by omega) _, value, _, h fuel (comma :: (us ++ rest)) (by omega)
    (by simp [StopsAt, hc, Tier.connective?]) (by simp [hc]), ?_⟩
  refine ⟨true, _, ⟨comma, _, rfl, hc, rfl⟩, ?_⟩
  simp only [if_true, yields_bind, yields_pure]
  exact ⟨values, _, hs fuel rest (count + 1) (by omega) (by omega) hstop hnext, rfl, rfl⟩

lemma readsExpression_loosest (h : ReadsOperators n ts .disjunction value m) :
    ReadsExpression n ts value m := by
  intro fuel rest hf hstop hnext
  obtain ⟨fuel, rfl⟩ := Nat.exists_eq_add_one.mpr (show 0 < fuel by omega)
  simp only [expression, yields_bind, yields_check]
  refine ⟨value, _, h.reads (by omega) hstop, false, _, ⟨?_, rfl⟩, ?_⟩
  · rcases rest with _ | ⟨t, rest⟩
    · rfl
    · simpa using hnext t
  · simp

lemma readsExpression_assignTo {target result : Expr} {equal : Token}
    (ht : ReadsOperators n ts .disjunction target k) (he : equal.kind = .equal)
    (hv : ReadsExpression k us value m) (ha : ∀ fault, assignTo fault target value = pure result) :
    ReadsExpression n (ts ++ equal :: us) result m := by
  intro fuel rest hf hstop hnext
  simp only [List.length_cons, List.length_append] at hf
  obtain ⟨fuel, rfl⟩ := Nat.exists_eq_add_one.mpr (show 0 < fuel by omega)
  have htarget : Reads (operators fuel .disjunction) n ts target k (equal :: (us ++ rest)) :=
    ht.reads (by omega) (by simp [StopsAt, he, Tier.connective?])
  simp only [expression, yields_bind, yields_check, List.cons_append, List.append_assoc]
  refine ⟨target, _, htarget, true, _, ⟨by simp [he], rfl⟩, ?_⟩
  simp only [if_true, yields_bind, yields_faultHere, yields_skip]
  refine ⟨_, _, ⟨rfl, rfl⟩, (), _, rfl, value, _, hv fuel rest (by omega) hstop hnext, ?_⟩
  rw [ha]
  simp

end Parser

end Lox
