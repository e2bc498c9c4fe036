import Lox.Proofs.Ending.Expression

/-! The parsers of statements and declarations look no further than the end. Where a declaration is
skipped both readers find the offending token again, though each counts the tokens from there on. -/

namespace Lox

lemma resumption_append {behind tail : List Token} (h : Unended behind)
    (htail : Parser.closes false tail = true) :
    resumption (behind ++ tail) = resumption behind ++ tail := by
  induction behind with
  | nil => cases tail <;> simp_all [resumption, Parser.closes]
  | cons t rest ih =>
    obtain ⟨ht, hrest⟩ := unended_cons.mp h
    have hhead : (rest ++ tail).head?.any (·.kind.beginsStatement) =
        rest.head?.any (·.kind.beginsStatement) := by
      cases rest with
      | nil => cases tail <;> simp_all [Parser.closes, Token.Kind.beginsStatement]
      | cons u rest => rfl
    rw [List.cons_append, resumption, resumption, hhead, ih hrest]
    simp only [apply_ite (· ++ tail), List.cons_append]

lemma resumption_suffix (rest : List Token) : resumption rest <:+ rest := by
  induction rest with
  | nil => exact List.suffix_refl []
  | cons t rest ih =>
    rw [resumption]
    have hrest := List.suffix_cons t rest
    split_ifs
    · exact List.suffix_refl _
    · exact hrest
    · exact hrest
    · exact ih.trans hrest

lemma length_resumption {front behind : List Token} (h : Unended behind)
    (hfront : behind.length ≤ front.length) (hsome : 1 ≤ front.length) :
    (resumption behind).length + 1 ≤ front.length := by
  cases behind with
  | nil => exact hsome
  | cons t rest =>
    -- The offending token is no end mark, so it is skipped.
    have hrest : (resumption rest).length ≤ rest.length := (resumption_suffix rest).length_le
    rw [resumption, if_neg (unended_cons.mp h).1]
    simp only [List.length_cons] at hfront
    split_ifs <;> omega

namespace Endings

open Lox.Parser

variable {E : Endings} {size fuel fuel' : Nat} {expression expression' : Parser Expr}
  {statement statement' : Parser Stmt}

section Statements

variable (he : ∀ left, left ≤ size → E.Agree 0 left 1 expression expression')

include he

lemma agree_expressionUnless {kind : Token.Kind} (hk : kind ≠ .eof) :
    E.Agree 0 size 0 (expressionUnless kind expression) (expressionUnless kind expression') :=
  agree_check hk (agree_pure none) (((he size (Nat.le_refl _)).uses (Nat.zero_le _)).first
    fun _ _ _ => agree_pure _)

lemma agree_varDeclaration :
    E.Agree 0 size 1 (varDeclaration expression) (varDeclaration expression') :=
  (agree_expectName _ _).first fun name left hleft => agree_acceptBind (by decide)
    (fun inner hinner => (he inner (by omega)).map some) (agree_pure none) fun initial _ _ =>
      (agree_expect (by decide) _ _).bind fun _ _ _ => agree_pure _

lemma agree_expressionStatement :
    E.Agree 0 size 1 (expressionStatement expression) (expressionStatement expression') :=
  (he size (Nat.le_refl _)).first fun _ _ _ => ((agree_expect (by decide) _ _).bind
    fun _ _ _ => agree_pure _)

lemma agree_printStatement (keyword : Token) :
    E.Agree 0 size 1 (printStatement keyword expression) (printStatement keyword expression') :=
  (he size (Nat.le_refl _)).first fun _ _ _ => ((agree_expect (by decide) _ _).bind
    fun _ _ _ => agree_pure _)

lemma agree_returnStatement (keyword : Token) :
    E.Agree 0 size 1 (returnStatement keyword expression) (returnStatement keyword expression') :=
  (agree_expressionUnless he (by decide)).bind fun _ _ _ =>
    (agree_expect (by decide) _ _).first fun _ _ _ => agree_pure _

lemma agree_forInitial :
    E.Agree 0 size 0 (forInitial expression) (forInitial expression') := by
  refine agree_accept (by decide) (fun _ _ => agree_pure none)
    (agree_accept (by decide) (fun left hleft => ?_) ?_)
  · exact ((agree_varDeclaration fun inner hinner => he inner (by omega)).map some).uses
      (Nat.zero_le _)
  · exact ((agree_expressionStatement he).map some).uses (Nat.zero_le _)

variable (hs : ∀ left, left ≤ size → E.Agree 0 left 1 statement statement')

include hs

lemma agree_whileStatement : E.Agree 0 size 1 (whileStatement expression statement)
    (whileStatement expression' statement') :=
  (agree_expect (by decide) _ _).first fun _ left hleft => (he left (by omega)).bind
    fun _ left' hleft' => (agree_expect (by decide) _ _).bind fun _ behind hbehind =>
      (hs behind (by omega)).bind fun _ _ _ => agree_pure _

lemma agree_ifStatement : E.Agree 0 size 1 (ifStatement expression statement)
    (ifStatement expression' statement') := by
  refine (agree_expect (by decide) _ _).first fun _ left hleft => (he left (by omega)).bind
    fun condition left' hleft' => (agree_expect (by decide) _ _).bind fun _ inside hinside =>
      (hs inside (by omega)).bind fun thenBranch behind hbehind => ?_
  exact agree_acceptBind (by decide) (fun other hother => (hs other (by omega)).map some)
    (agree_pure none) fun _ _ _ => agree_pure _

lemma agree_forStatement : E.Agree 0 size 1 (forStatement expression statement)
    (forStatement expression' statement') :=
  (agree_expect (by decide) _ _).first fun _ left hleft =>
    (agree_forInitial fun inner hinner => he inner (by omega)).bind fun _ left' hleft' =>
      (agree_expressionUnless (fun inner hinner => he inner (by omega)) (by decide)).bind
        fun _ behind hbehind => (agree_expect (by decide) _ _).bind fun _ others hothers =>
          (agree_expressionUnless (fun inner hinner => he inner (by omega)) (by decide)).bind
            fun _ closing hclosing => (agree_expect (by decide) _ _).bind fun _ body hbody =>
              (hs body (by omega)).bind fun _ _ _ => agree_pure _

end Statements

lemma agree_block {body body' : Parser (List Stmt)} (h : E.Agree 0 size 0 body body') :
    E.Agree 0 size 1 (block body) (block body') :=
  h.bind fun _ _ _ => (agree_expect (by decide) _ _).first fun _ _ _ => agree_pure _

lemma agree_parameters (count : Nat) (hsize : size + 1 ≤ min fuel fuel') :
    E.Agree 0 size 1 (parameters fuel count) (parameters fuel' count) := by
  induction fuel generalizing fuel' size count with
  | zero => omega
  | succ fuel ih =>
    obtain ⟨fuel', rfl⟩ := Nat.exists_eq_add_one.mpr (show 0 < fuel' by omega)
    refine (agree_limit _ _ _).bind fun _ left hleft => (agree_expectName _ _).first
      fun parameter behind hbehind => agree_accept (by decide) (fun others hothers => ?_)
        (agree_pure _)
    exact ((ih (count + 1) (by omega)).uses (Nat.zero_le _)).first fun _ _ _ => agree_pure _

lemma agree_superclass : E.Agree 0 size 0 superclass superclass :=
  agree_accept (by decide) (fun _ _ => (agree_expectName _ _).bind fun name _ _ =>
    (agree_newReference name).bind fun _ _ _ => agree_pure _) (agree_pure none)

lemma agree_classDeclaration {methods methods' : Parser (List FunctionDecl)}
    (h : ∀ left, left ≤ size → E.Agree 0 left 0 methods methods') :
    E.Agree 0 size 1 (classDeclaration methods) (classDeclaration methods') :=
  (agree_expectName _ _).first fun _ left hleft => agree_superclass.bind fun _ inner hinner =>
    (agree_expect (by decide) _ _).bind fun _ body hbody => (h body (by omega)).bind
      fun _ _ _ => (agree_expect (by decide) _ _).bind fun _ _ _ => agree_pure _

lemma agree_function (role : FunctionRole) {body body' : Parser (List Stmt)}
    (hfuel : 16 * size ≤ min fuel fuel')
    (h : ∀ left, left + 4 ≤ size → E.Agree 0 left 0 body body') :
    E.Agree 0 size 1 (function role (parameters fuel 0) body)
      (function role (parameters fuel' 0) body') := by
  refine (agree_expectName _ _).first fun name left hleft => (agree_expect (by decide) _ _).bind
    fun _ inside hinside => agree_checkBind (by decide) (agree_pure []) (agree_parameters 0 (by omega))
      fun params closing hclosing => (agree_expect (by decide) _ _).bind fun _ opening hopening => ?_
  exact (agree_expect (by decide) _ _).bind fun _ inner hinner =>
    (agree_block (h inner (by omega))).bind fun _ _ _ => agree_pure _

lemma agree_recovering (h : E.Agree 0 size 1 statement statement') :
    E.Agree 1 size 1 (recovering statement) (recovering statement') := by
  intro front c d hleast hsize hcd
  have hread := h front c d (Nat.zero_le _) hsize hcd
  simp only [recovering, outcome_bind, outcome_get, outcome_tryCatch, outcome_map]
  generalize outcome statement c = r, outcome statement' d = r' at hread ⊢
  cases hread with
  | ok stated hsuffix hpassed habreast => exact .ok (some stated) hsuffix hpassed habreast
  | @failed cause rule behind c' d' hsuffix habreast =>
    -- The fault counts the tokens that were left to its reader, ends included, and so does the cursor
    -- from which the statement was read.
    have hremaining (c : Cursor) : (c.fault cause rule).remaining = c.rest.length := by
      rw [Cursor.fault]
      cases c.rest <;> rfl
    have hdrop (tail : List Token) : (front ++ tail).drop
        ((front ++ tail).length - (behind ++ tail).length) = behind ++ tail := by
      obtain ⟨passed, rfl⟩ := hsuffix
      simp
    simp only [outcome_bind, outcome_report, outcome_modify, outcome_pure]
    refine .ok none ((resumption_suffix behind).trans hsuffix)
      (length_resumption habreast.unended hsuffix.length_le hleast)
      ⟨fun t ht => habreast.unended t ((resumption_suffix behind).subset ht), ?_, ?_,
        habreast.nextId, .cons (habreast.fault cause rule) habreast.errors⟩
    · rw [hremaining, habreast.rest, hcd.rest, hdrop,
        resumption_append habreast.unended E.first_closes]
    · rw [hremaining, habreast.rest', hcd.rest', hdrop,
        resumption_append habreast.unended E.second_closes]

/-- With so much fuel each parser of statements has enough of it for some number of tokens up to the
end, and both readers come to the same. -/
structure Statements (E : Endings) (fuel fuel' : Nat) : Prop where
  declarations : ∀ inBlock size, 16 * size + 12 ≤ min fuel fuel' →
    E.Agree 0 size 0 (Parser.declarations fuel inBlock) (Parser.declarations fuel' inBlock)
  declaration : ∀ size, 16 * size + 11 ≤ min fuel fuel' →
    E.Agree 0 size 1 (Parser.declaration fuel) (Parser.declaration fuel')
  statement : ∀ size, 16 * size + 10 ≤ min fuel fuel' →
    E.Agree 0 size 1 (Parser.statement fuel) (Parser.statement fuel')
  methods : ∀ size, 16 * size + 12 ≤ min fuel fuel' →
    E.Agree 0 size 0 (Parser.methods fuel) (Parser.methods fuel')

lemma agree_declarations (h : E.Statements fuel fuel') (inBlock : Bool)
    (hsize : 16 * size + 11 ≤ min fuel fuel') :
    E.Agree 0 size 0 (Parser.declarations (fuel + 1) inBlock)
      (Parser.declarations (fuel' + 1) inBlock) := by
  refine agree_atClose (agree_pure []) ((agree_recovering (h.declaration size hsize)).bind
    fun first left hleft => (h.declarations inBlock left (by omega)).bind fun _ _ _ => agree_pure _)

lemma agree_declaration (h : E.Statements fuel fuel') (hsize : 16 * size + 10 ≤ min fuel fuel') :
    E.Agree 0 size 1 (Parser.declaration (fuel + 1)) (Parser.declaration (fuel' + 1)) := by
  refine agree_accept (by decide) (fun left hleft => ?_) (agree_accept (by decide)
    (fun left hleft => ?_) (agree_accept (by decide) (fun left hleft => ?_) ?_))
  · exact agree_classDeclaration fun body hbody => h.methods body (by omega)
  · exact (agree_function .function (by omega) fun body hbody =>
      h.declarations true body (by omega)).map _
  · exact agree_varDeclaration fun inner hinner => (expressions E _ _).expression inner (by omega)
  · exact h.statement size hsize

lemma agree_statement (h : E.Statements fuel fuel') (hsize : 16 * size + 9 ≤ min fuel fuel') :
    E.Agree 0 size 1 (Parser.statement (fuel + 1)) (Parser.statement (fuel' + 1)) := by
  have he (left : Nat) (hleft : left ≤ size) :
      E.Agree 0 left 1 (Parser.expression fuel) (Parser.expression fuel') :=
    (expressions E _ _).expression left (by omega)
  have hin {left : Nat} (hleft : left + 1 ≤ size) (inner : Nat) (hinner : inner ≤ left) :
      E.Agree 0 inner 1 (Parser.expression fuel) (Parser.expression fuel') := he inner (by omega)
  have hs {left : Nat} (hleft : left + 1 ≤ size) (inner : Nat) (hinner : inner ≤ left) :
      E.Agree 0 inner 1 (Parser.statement fuel) (Parser.statement fuel') :=
    h.statement inner (by omega)
  refine agree_peek (fun t hend => by simp only [hend]) (fun t hend => by simp only [hend])
    (agree_expressionStatement he) fun t _ => ?_
  dsimp only
  split
  case h_1 =>
    exact agree_skip.bind fun _ left hleft => agree_forStatement (hin hleft) (hs hleft)
  case h_2 =>
    exact agree_skip.bind fun _ left hleft => agree_ifStatement (hin hleft) (hs hleft)
  case h_3 => exact agree_skip.bind fun _ left hleft => agree_printStatement (hin hleft) t
  case h_4 => exact agree_skip.bind fun _ left hleft => agree_returnStatement (hin hleft) t
  case h_5 =>
    exact agree_skip.bind fun _ left hleft => agree_whileStatement (hin hleft) (hs hleft)
  case h_6 =>
    exact agree_skip.bind fun _ left hleft =>
      (agree_block (h.declarations true left (by omega))).map _
  case h_7 => exact (agree_expressionStatement he).anyLeast

lemma agree_methods (h : E.Statements fuel fuel') (hsize : 16 * size + 11 ≤ min fuel fuel') :
    E.Agree 0 size 0 (Parser.methods (fuel + 1)) (Parser.methods (fuel' + 1)) := by
  refine agree_atClose (agree_pure []) (Agree.anyLeast ?_)
  exact (agree_function .method (by omega) fun body hbody =>
    h.declarations true body (by omega)).bind fun method left hleft =>
      (h.methods left (by omega)).bind fun _ _ _ => agree_pure _

lemma statements (E : Endings) (fuel fuel' : Nat) : E.Statements fuel fuel' := by
  induction fuel generalizing fuel' with
  | zero => constructor <;> intros <;> omega
  | succ fuel ih =>
    cases fuel' with
    | zero => constructor <;> intros <;> omega
    | succ fuel' =>
      have h := ih fuel'
      exact
        { declarations := fun inBlock size hsize => agree_declarations h inBlock (by omega)
          declaration := fun size hsize => agree_declaration h (by omega)
          statement := fun size hsize => agree_statement h (by omega)
          methods := fun size hsize => agree_methods h (by omega) }

end Endings

end Lox
