import Lox.Proofs.Grammar.Completeness.Expression
import Lox.Proofs.Grammar.Soundness.Statement

/-! Derived statements and declarations are read; an `else` must not follow where it would be
taken. -/

namespace Lox.Parser

def ReadsOptional (n : Nat) (ts : List Token) (value : Option Expr) (m : Nat) : Prop :=
  ∀ fuel closing rest, 16 * ts.length + 9 ≤ fuel →
    closing.kind = .semicolon ∨ closing.kind = .rightParen →
    Reads (expressionUnless closing.kind (expression fuel)) n ts value m (closing :: rest)

def ReadsBinding (n : Nat) (ts : List Token) (declared : Stmt) (m : Nat) : Prop :=
  ∀ fuel rest, 16 * ts.length + 9 ≤ fuel →
    Reads (varDeclaration (expression fuel)) n ts declared m rest

def ReadsEvaluation (n : Nat) (ts : List Token) (stated : Stmt) (m : Nat) : Prop :=
  ∀ fuel rest, 16 * ts.length + 9 ≤ fuel →
    Reads (expressionStatement (expression fuel)) n ts stated m rest

def ReadsClause (n : Nat) (ts : List Token) (initial : Option Stmt) (m : Nat) : Prop :=
  ∀ fuel rest, 16 * ts.length + 9 ≤ fuel →
    Reads (forInitial (expression fuel)) n ts initial m rest

def ReadsStatement (n : Nat) (ts : List Token) (dangling : Bool) (stated : Stmt) (m : Nat) : Prop :=
  ∀ fuel rest, 16 * ts.length + 10 ≤ fuel →
    (dangling = true → ∀ t ∈ rest.head?, t.kind ≠ .kwElse) →
    Reads (statement fuel) n ts stated m rest

def ReadsDeclaration (n : Nat) (ts : List Token) (declared : Stmt) (m : Nat) : Prop :=
  ∀ fuel rest, 16 * ts.length + 11 ≤ fuel → (∀ t ∈ rest.head?, t.kind ≠ .kwElse) →
    Reads (declaration fuel) n ts declared m rest

def ReadsDeclarations (n : Nat) (ts : List Token) (body : List Stmt) (m : Nat) : Prop :=
  ∀ fuel inBlock rest, 16 * ts.length + 12 ≤ fuel → closes inBlock rest = true →
    Reads (declarations fuel inBlock) n ts body m rest

def ReadsFunction (n : Nat) (ts : List Token) (decl : FunctionDecl) (m : Nat) : Prop :=
  ∀ fuel role rest, 16 * ts.length ≤ fuel →
    Reads (function role (parameters fuel 0) (declarations fuel true)) n ts decl m rest

def ReadsMethods (n : Nat) (ts : List Token) (decls : List FunctionDecl) (m : Nat) : Prop :=
  ∀ fuel rest, 16 * ts.length + 12 ≤ fuel → closes true rest = true →
    Reads (methods fuel) n ts decls m rest

variable {n k l o m : Nat} {ts us vs ws rest : List Token} {value : Expr} {stated body : Stmt}
  {dangling : Bool}

lemma readsOptional_absent (n : Nat) : ReadsOptional n [] none n := by
  intro fuel closing rest _ _
  simp only [expressionUnless, yields_bind, yields_check]
  refine ⟨true, _, ⟨by simp, rfl⟩, ?_⟩
  simp

lemma readsOptional_present (h : ReadsExpression n ts value m)
    (hb : BeginsWith Token.Kind.beginsExpression ts) : ReadsOptional n ts (some value) m := by
  intro fuel closing rest hf hc
  simp only [expressionUnless, yields_bind, yields_check]
  refine ⟨false, _, ⟨hb.check_append ?_, rfl⟩, ?_⟩
  · rcases hc with hc | hc <;> rw [hc] <;> rfl
  simp only [Bool.false_eq_true, if_false, yields_bind, yields_pure]
  refine ⟨value, _, h fuel (closing :: rest) hf ?_ ?_, rfl, rfl⟩
  · rcases hc with hc | hc <;> simp [StopsAt, hc, Tier.connective?]
  · rcases hc with hc | hc <;> simp [hc]

lemma ReadsOptional.untilSemicolon {value : Option Expr} {semicolon : Token}
    (h : ReadsOptional n ts value m) (hs : semicolon.kind = .semicolon) {fuel : Nat}
    (hf : 16 * ts.length + 9 ≤ fuel) :
    Reads (expressionUnless .semicolon (expression fuel)) n ts value m (semicolon :: rest) :=
  hs ▸ h fuel semicolon rest hf (.inl hs)

lemma ReadsOptional.untilParen {value : Option Expr} {paren : Token}
    (h : ReadsOptional n ts value m) (hp : paren.kind = .rightParen) {fuel : Nat}
    (hf : 16 * ts.length + 9 ≤ fuel) :
    Reads (expressionUnless .rightParen (expression fuel)) n ts value m (paren :: rest) :=
  hp ▸ h fuel paren rest hf (.inr hp)

lemma ReadsExpression.untilSemicolon {semicolon : Token} (h : ReadsExpression n ts value m)
    (hs : semicolon.kind = .semicolon) {fuel : Nat} (hf : 16 * ts.length + 9 ≤ fuel) :
    Reads (expression fuel) n ts value m (semicolon :: rest) :=
  h fuel _ hf (by simp [StopsAt, hs, Tier.connective?]) (by simp [hs])

lemma ReadsExpression.untilParen {paren : Token} (h : ReadsExpression n ts value m)
    (hp : paren.kind = .rightParen) {fuel : Nat} (hf : 16 * ts.length + 9 ≤ fuel) :
    Reads (expression fuel) n ts value m (paren :: rest) :=
  h fuel _ hf (by simp [StopsAt, hp, Tier.connective?]) (by simp [hp])

lemma readsBinding_uninitialized {t semicolon : Token} (ht : t.kind = .identifier)
    (hs : semicolon.kind = .semicolon) :
    ReadsBinding n [t, semicolon] (.varDecl t.name none) n := by
  intro fuel rest _
  simp only [varDeclaration, yields_bind, yields_expectName, yields_accept]
  refine ⟨t.name, _, ⟨t, _, rfl, ht, rfl, rfl⟩, false, _, ⟨by simp [hs], rfl⟩, ?_⟩
  simp only [Bool.false_eq_true, if_false, yields_bind, yields_pure, yields_expect]
  exact ⟨none, _, ⟨rfl, rfl⟩, semicolon, _, ⟨_, rfl, hs, rfl⟩, rfl, rfl⟩

lemma readsBinding_initialized {t equal semicolon : Token} (ht : t.kind = .identifier)
    (he : equal.kind = .equal) (h : ReadsExpression n ts value m)
    (hs : semicolon.kind = .semicolon) :
    ReadsBinding n (t :: equal :: (ts ++ [semicolon])) (.varDecl t.name (some value)) m := by
  intro fuel rest hf
  simp only [List.length_cons, List.length_append, List.length_nil] at hf
  simp only [varDeclaration, yields_bind, yields_expectName, yields_accept]
  simp only [List.cons_append, List.append_assoc, List.nil_append]
  refine ⟨t.name, _, ⟨t, _, rfl, ht, rfl, rfl⟩, true, _, ⟨equal, _, rfl, he, rfl⟩, ?_⟩
  simp only [if_true, yields_bind, yields_map, yields_pure, yields_expect]
  exact ⟨some value, _, ⟨value, h.untilSemicolon hs (by omega), rfl⟩, semicolon, _,
    ⟨_, rfl, hs, rfl⟩, rfl, rfl⟩

lemma readsEvaluation {semicolon : Token} (h : ReadsExpression n ts value m)
    (hs : semicolon.kind = .semicolon) :
    ReadsEvaluation n (ts ++ [semicolon]) (.expression value) m := by
  intro fuel rest hf
  simp only [List.length_append, List.length_singleton] at hf
  simp only [expressionStatement, yields_bind, yields_expect, yields_pure]
  simp only [List.append_assoc, List.cons_append, List.nil_append]
  exact ⟨value, _, h.untilSemicolon hs (by omega), semicolon, _, ⟨_, rfl, hs, rfl⟩, rfl, rfl⟩

lemma readsClause_none {semicolon : Token} (hs : semicolon.kind = .semicolon) :
    ReadsClause n [semicolon] none n := by
  intro fuel rest _
  simp only [forInitial, yields_bind, yields_accept]
  refine ⟨true, _, ⟨semicolon, _, rfl, hs, rfl⟩, ?_⟩
  simp

lemma readsClause_binds {keyword : Token} (hk : keyword.kind = .kwVar)
    (h : ReadsBinding n ts stated m) : ReadsClause n (keyword :: ts) (some stated) m := by
  intro fuel rest hf
  simp only [List.length_cons] at hf
  simp only [forInitial, yields_bind, yields_accept]
  refine ⟨false, _, ⟨by simp [hk], rfl⟩, ?_⟩
  simp only [Bool.false_eq_true, if_false, yields_bind, yields_accept]
  refine ⟨true, _, ⟨keyword, _, rfl, hk, rfl⟩, ?_⟩
  simp only [if_true, yields_map]
  exact ⟨stated, h fuel rest (by omega), rfl⟩

lemma readsClause_evaluates (h : ReadsEvaluation n ts stated m)
    (hb : BeginsWith Token.Kind.beginsExpression ts) : ReadsClause n ts (some stated) m := by
  intro fuel rest hf
  obtain ⟨t, us, rfl, ht⟩ := hb
  simp only [forInitial, yields_bind, yields_accept]
  refine ⟨false, _, ⟨?_, rfl⟩, ?_⟩
  · intro u hu hk
    obtain rfl : t = u := by simpa using hu
    simp [hk, Token.Kind.beginsExpression, Token.Kind.beginsPrimary, UnaryOp.ofKind?] at ht
  simp only [Bool.false_eq_true, if_false, yields_bind, yields_accept]
  refine ⟨false, _, ⟨?_, rfl⟩, ?_⟩
  · intro u hu hk
    obtain rfl : t = u := by simpa using hu
    simp [hk, Token.Kind.beginsExpression, Token.Kind.beginsPrimary, UnaryOp.ofKind?] at ht
  simp only [Bool.false_eq_true, if_false, yields_map]
  exact ⟨stated, h fuel rest hf, rfl⟩

lemma readsStatement_evaluation (h : ReadsEvaluation n ts stated m)
    (hb : BeginsWith Token.Kind.beginsExpression ts) : ReadsStatement n ts false stated m := by
  intro fuel rest hf _
  obtain ⟨t, us, rfl, ht⟩ := hb
  obtain ⟨fuel, rfl⟩ := Nat.exists_eq_add_one.mpr (show 0 < fuel by omega)
  simp only [statement, yields_bind, yields_peek]
  refine ⟨some t, _, ⟨rfl, rfl⟩, ?_⟩
  have hy := h fuel rest (by omega)
  cases hk : t.kind <;> simp only [hk] <;>
    first
    | exact hy
    | simp [hk, Token.Kind.beginsExpression, Token.Kind.beginsPrimary, UnaryOp.ofKind?] at ht

lemma readsStatement_print {keyword semicolon : Token} (hk : keyword.kind = .kwPrint)
    (h : ReadsExpression n ts value m) (hs : semicolon.kind = .semicolon) :
    ReadsStatement n (keyword :: (ts ++ [semicolon])) false (.print keyword.line value) m := by
  intro fuel rest hf _
  simp only [List.length_cons, List.length_append, List.length_nil] at hf
  obtain ⟨fuel, rfl⟩ := Nat.exists_eq_add_one.mpr (show 0 < fuel by omega)
  simp only [statement, yields_bind, yields_peek]
  simp only [List.cons_append, List.append_assoc, List.nil_append]
  refine ⟨some keyword, _, ⟨rfl, rfl⟩, ?_⟩
  simp only [hk, printStatement, yields_bind, yields_skip, yields_expect, yields_pure]
  exact ⟨(), _, rfl, value, _, h.untilSemicolon hs (by omega), semicolon, _,
    ⟨_, rfl, hs, rfl⟩, rfl, rfl⟩

lemma readsStatement_ret {keyword semicolon : Token} {value : Option Expr}
    (hk : keyword.kind = .kwReturn) (h : ReadsOptional n ts value m)
    (hs : semicolon.kind = .semicolon) :
    ReadsStatement n (keyword :: (ts ++ [semicolon])) false (.ret keyword.name value) m := by
  intro fuel rest hf _
  simp only [List.length_cons, List.length_append, List.length_nil] at hf
  obtain ⟨fuel, rfl⟩ := Nat.exists_eq_add_one.mpr (show 0 < fuel by omega)
  simp only [statement, yields_bind, yields_peek]
  simp only [List.cons_append, List.append_assoc, List.nil_append]
  refine ⟨some keyword, _, ⟨rfl, rfl⟩, ?_⟩
  simp only [hk, returnStatement, yields_bind, yields_skip, yields_expect, yields_pure]
  exact ⟨(), _, rfl, value, _, h.untilSemicolon hs (by omega), semicolon, _,
    ⟨_, rfl, hs, rfl⟩, rfl, rfl⟩

lemma ReadsDeclarations.closed {body : List Stmt} (h : ReadsDeclarations n ts body m)
    {closing : Token} (hc : closing.kind = .rightBrace) {fuel : Nat}
    (hf : 16 * ts.length + 12 ≤ fuel) :
    Reads (block (declarations fuel true)) n (ts ++ [closing]) body m rest := by
  simp only [block, yields_bind, yields_expect, yields_pure]
  simp only [List.append_assoc, List.cons_append, List.nil_append]
  exact ⟨body, _, h fuel true (closing :: rest) hf (by simp [closes, hc]), closing, _,
    ⟨_, rfl, hc, rfl⟩, rfl, rfl⟩

lemma readsStatement_block {opening closing : Token} {body : List Stmt}
    (ho : opening.kind = .leftBrace) (h : ReadsDeclarations n ts body m)
    (hc : closing.kind = .rightBrace) :
    ReadsStatement n (opening :: (ts ++ [closing])) false (.block body) m := by
  intro fuel rest hf _
  simp only [List.length_cons, List.length_append, List.length_nil] at hf
  obtain ⟨fuel, rfl⟩ := Nat.exists_eq_add_one.mpr (show 0 < fuel by omega)
  simp only [statement, yields_bind, yields_peek]
  simp only [List.cons_append]
  refine ⟨some opening, _, ⟨rfl, rfl⟩, ?_⟩
  simp only [ho, yields_bind, yields_skip, yields_map]
  exact ⟨(), _, rfl, body, h.closed hc (by omega), rfl⟩

section Branches

variable {keyword opening closing : Token}

lemma readsStatement_ifThen (hk : keyword.kind = .kwIf) (ho : opening.kind = .leftParen)
    (h : ReadsExpression n ts value k) (hc : closing.kind = .rightParen)
    (hb : ReadsStatement k us dangling stated m) :
    ReadsStatement n (keyword :: opening :: (ts ++ closing :: us)) true
      (.ifElse value stated none) m := by
  intro fuel rest hf helse
  simp only [List.length_cons, List.length_append] at hf
  obtain ⟨fuel, rfl⟩ := Nat.exists_eq_add_one.mpr (show 0 < fuel by omega)
  simp only [statement, yields_bind, yields_peek]
  simp only [List.cons_append, List.append_assoc]
  refine ⟨some keyword, _, ⟨rfl, rfl⟩, ?_⟩
  simp only [hk, ifStatement, yields_bind, yields_skip, yields_expect, yields_accept]
  refine ⟨(), _, rfl, opening, _, ⟨_, rfl, ho, rfl⟩, value, _, h.untilParen hc (by omega),
    closing, _, ⟨_, rfl, hc, rfl⟩, stated, _,
    hb fuel rest (by omega) (fun _ => helse rfl), false, _, ⟨helse rfl, rfl⟩, ?_⟩
  simp

lemma readsStatement_ifThenElse {other : Token} {alternative : Stmt} (hk : keyword.kind = .kwIf)
    (ho : opening.kind = .leftParen) (h : ReadsExpression n ts value k)
    (hc : closing.kind = .rightParen) (hb : ReadsStatement k us false stated l)
    (he : other.kind = .kwElse) (ha : ReadsStatement l vs dangling alternative m) :
    ReadsStatement n (keyword :: opening :: (ts ++ closing :: (us ++ other :: vs))) dangling
      (.ifElse value stated (some alternative)) m := by
  intro fuel rest hf helse
  simp only [List.length_cons, List.length_append] at hf
  obtain ⟨fuel, rfl⟩ := Nat.exists_eq_add_one.mpr (show 0 < fuel by omega)
  simp only [statement, yields_bind, yields_peek]
  simp only [List.cons_append, List.append_assoc]
  refine ⟨some keyword, _, ⟨rfl, rfl⟩, ?_⟩
  simp only [hk, ifStatement, yields_bind, yields_skip, yields_expect, yields_accept]
  refine ⟨(), _, rfl, opening, _, ⟨_, rfl, ho, rfl⟩, value, _, h.untilParen hc (by omega),
    closing, _, ⟨_, rfl, hc, rfl⟩, stated, _,
    hb fuel (other :: (vs ++ rest)) (by omega) (by simp), true, _, ⟨other, _, rfl, he, rfl⟩, ?_⟩
  simp only [if_true, yields_bind, yields_map, yields_pure]
  exact ⟨some alternative, _, ⟨alternative, ha fuel rest (by omega) helse, rfl⟩, rfl, rfl⟩

lemma readsStatement_whileLoop (hk : keyword.kind = .kwWhile) (ho : opening.kind = .leftParen)
    (h : ReadsExpression n ts value k) (hc : closing.kind = .rightParen)
    (hb : ReadsStatement k us dangling body m) :
    ReadsStatement n (keyword :: opening :: (ts ++ closing :: us)) dangling
      (.whileLoop value body) m := by
  intro fuel rest hf helse
  simp only [List.length_cons, List.length_append] at hf
  obtain ⟨fuel, rfl⟩ := Nat.exists_eq_add_one.mpr (show 0 < fuel by omega)
  simp only [statement, yields_bind, yields_peek]
  simp only [List.cons_append, List.append_assoc]
  refine ⟨some keyword, _, ⟨rfl, rfl⟩, ?_⟩
  simp only [hk, whileStatement, yields_bind, yields_skip, yields_expect, yields_pure]
  exact ⟨(), _, rfl, opening, _, ⟨_, rfl, ho, rfl⟩, value, _, h.untilParen hc (by omega),
    closing, _, ⟨_, rfl, hc, rfl⟩, body, _, hb fuel rest (by omega) helse, rfl, rfl⟩

lemma readsStatement_forLoop {semicolon : Token} {initial : Option Stmt}
    {condition increment : Option Expr} (hk : keyword.kind = .kwFor)
    (ho : opening.kind = .leftParen) (hi : ReadsClause n ts initial k)
    (hcond : ReadsOptional k us condition l) (hs : semicolon.kind = .semicolon)
    (hinc : ReadsOptional l vs increment o) (hc : closing.kind = .rightParen)
    (hb : ReadsStatement o ws dangling body m) :
    ReadsStatement n (keyword :: opening :: (ts ++ (us ++ semicolon :: (vs ++ closing :: ws))))
      dangling (.forLoop initial condition increment body) m := by
  intro fuel rest hf helse
  simp only [List.length_cons, List.length_append] at hf
  obtain ⟨fuel, rfl⟩ := Nat.exists_eq_add_one.mpr (show 0 < fuel by omega)
  simp only [statement, yields_bind, yields_peek]
  simp only [List.cons_append, List.append_assoc]
  refine ⟨some keyword, _, ⟨rfl, rfl⟩, ?_⟩
  simp only [hk, forStatement, yields_bind, yields_skip, yields_expect, yields_pure]
  exact ⟨(), _, rfl, opening, _, ⟨_, rfl, ho, rfl⟩, initial, _, hi fuel _ (by omega),
    condition, _, hcond.untilSemicolon hs (by omega), semicolon, _, ⟨_, rfl, hs, rfl⟩,
    increment, _, hinc.untilParen hc (by omega), closing, _, ⟨_, rfl, hc, rfl⟩, body, _,
    hb fuel rest (by omega) helse, rfl, rfl⟩

end Branches

end Lox.Parser
