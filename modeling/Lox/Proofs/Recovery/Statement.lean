import Lox.Proofs.Recovery.Expression

/-! What the parsers of statements and declarations pass. A declaration that is skipped is a fatal fault
more, and reading goes on behind the offending token, unless that is at the end. -/

namespace Lox

lemma Cursor.remaining_fault (c : Cursor) (cause : ParseError.Cause) (rule : Rule) :
    (c.fault cause rule).remaining = c.rest.length :=
  (c.foundAt_fault cause rule).remaining

/-- Where reading goes on after a fatal fault. -/
def Cursor.resume (c : Cursor) (e : ParseError) : Cursor :=
  { c with rest := resumption c.rest, errors := e :: c.errors }

lemma Cursor.advances_resume {c : Cursor} {cause : ParseError.Cause} (h : cause.isFatal = true)
    (rule : Rule) : c.Advances (c.resume (c.fault cause rule)) := by
  have hfound := c.foundAt_fault cause rule
  have hfatal : (c.fault cause rule).isFatal = true := by
    rw [ParseError.isFatal, c.cause_fault, h]
  refine ⟨resumption_passes c.rest, [c.fault cause rule], ?_, ?_, List.pairwise_singleton _ _⟩
  · exact List.filter_cons_of_pos hfatal
  · refine List.forall_mem_singleton.mpr ⟨c.rest, List.suffix_refl _, hfound, ?_⟩
    split
    · rename_i hnone
      exact (resumption_atEnd (hfound.found_eq_none_iff.mp hnone)).symm
    · rename_i hsome
      refine length_resumption_lt (Bool.eq_false_iff.mpr fun hend => hsome ?_)
      exact hfound.found_eq_none_iff.mpr hend

namespace Parser

variable {fuel : Nat} {expression : Parser Expr} {statement : Parser Stmt}

section Statements

variable (he : Passes false 1 expression)

include he

lemma passes_expressionUnless {kind : Token.Kind} (hk : kind ≠ .eof) :
    Passes false 0 (expressionUnless kind expression) :=
  passes_check hk (passes_pure none) ((he.uses (Nat.zero_le _)).first fun _ => passes_pure _)

lemma passes_varDeclaration : Passes false 1 (varDeclaration expression) := by
  have hrest (name : Name) (initial : Option Expr) : Passes false 0 (do
      let _ ← expect .semicolon "';' after variable declaration" .varDeclaration
      return Stmt.varDecl name initial) :=
    (passes_expect (by decide) _ _).bind fun _ => passes_pure _
  exact (passes_expectName _ _).first fun name => passes_accept (by decide)
    ((he.map some).bind (hrest name)) ((passes_pure none).bind (hrest name))

lemma passes_expressionStatement : Passes false 1 (expressionStatement expression) :=
  he.first fun _ => (passes_expect (by decide) _ _).bind fun _ => passes_pure _

lemma passes_printStatement (keyword : Token) :
    Passes false 1 (printStatement keyword expression) :=
  he.first fun _ => (passes_expect (by decide) _ _).bind fun _ => passes_pure _

lemma passes_returnStatement (keyword : Token) :
    Passes false 1 (returnStatement keyword expression) :=
  (passes_expressionUnless he (by decide)).bind fun _ => (passes_expect (by decide) _ _).first
    fun _ => passes_pure _

lemma passes_forInitial : Passes false 0 (forInitial expression) := by
  refine passes_accept (by decide) (passes_pure none) (passes_accept (by decide) ?_ ?_)
  · exact ((passes_varDeclaration he).map some).uses (Nat.zero_le _)
  · exact ((passes_expressionStatement he).map some).uses (Nat.zero_le _)

variable (hs : Passes false 1 statement)

include hs

lemma passes_whileStatement : Passes false 1 (whileStatement expression statement) :=
  (passes_expect (by decide) _ _).first fun _ => he.bind fun _ =>
    (passes_expect (by decide) _ _).bind fun _ => hs.bind fun _ => passes_pure _

lemma passes_ifStatement : Passes false 1 (ifStatement expression statement) := by
  have hrest (condition : Expr) (thenBranch : Stmt) (elseBranch : Option Stmt) :
      Passes false 0 (pure (Stmt.ifElse condition thenBranch elseBranch) : Parser Stmt) :=
    passes_pure _
  refine (passes_expect (by decide) _ _).first fun _ => he.bind fun condition =>
    (passes_expect (by decide) _ _).bind fun _ => hs.bind fun thenBranch => ?_
  exact passes_accept (by decide) ((hs.map some).bind (hrest condition thenBranch))
    ((passes_pure none).bind (hrest condition thenBranch))

lemma passes_forStatement : Passes false 1 (forStatement expression statement) :=
  (passes_expect (by decide) _ _).first fun _ => (passes_forInitial he).bind fun _ =>
    (passes_expressionUnless he (by decide)).bind fun _ => (passes_expect (by decide) _ _).bind
      fun _ => (passes_expressionUnless he (by decide)).bind fun _ =>
        (passes_expect (by decide) _ _).bind fun _ => hs.bind fun _ => passes_pure _

end Statements

section Declarations

variable {body : Parser (List Stmt)} {methods : Parser (List FunctionDecl)}

lemma passes_block (h : Passes false 0 body) : Passes false 1 (block body) :=
  h.bind fun _ => (passes_expect (by decide) _ _).first fun _ => passes_pure _

lemma passes_parameters (fuel count : Nat) : Passes false 1 (parameters fuel count) := by
  induction fuel generalizing count with
  | zero => exact passes_outOfFuel
  | succ fuel ih =>
    refine (passes_limit _ _ _).bind fun _ => (passes_expectName _ _).first fun parameter =>
      passes_accept (by decide) ?_ (passes_pure _)
    exact ((ih (count + 1)).uses (Nat.zero_le _)).first fun _ => passes_pure _

lemma passes_function (role : FunctionRole) (fuel : Nat) (h : Passes false 0 body) :
    Passes false 1 (function role (parameters fuel 0) body) := by
  have hrest (name : Name) (params : List Name) : Passes false 0 (do
      let _ ← expect .rightParen "')' after parameters" .function
      let _ ← expect .leftBrace ("'\x7b' before " ++ role.noun ++ " body") .function
      return FunctionDecl.mk name params (← block body)) :=
    (passes_expect (by decide) _ _).bind fun _ => (passes_expect (by decide) _ _).bind fun _ =>
      ((passes_block h).uses (Nat.zero_le _)).first fun _ => passes_pure _
  exact (passes_expectName _ _).first fun name => (passes_expect (by decide) _ _).bind fun _ =>
    passes_check (by decide) ((passes_pure []).bind (hrest name))
      ((passes_parameters fuel 0).bind (hrest name))

lemma passes_superclass : Passes false 0 superclass :=
  passes_accept (by decide) ((passes_expectName _ _).bind fun name =>
    (passes_newReference name).first fun _ => passes_pure _) (passes_pure none)

lemma passes_classDeclaration (h : Passes false 0 methods) :
    Passes false 1 (classDeclaration methods) :=
  (passes_expectName _ _).first fun _ => passes_superclass.bind fun _ =>
    (passes_expect (by decide) _ _).bind fun _ => h.bind fun _ =>
      (passes_expect (by decide) _ _).bind fun _ => passes_pure _

/-- A declaration at fault is skipped: the tokens from the offending one on are found again by their
count. -/
lemma outcome_recovering {declaration : Parser Stmt} (h : Passes false 1 declaration) (c : Cursor) :
    outcome (recovering declaration) c =
      match outcome declaration c with
      | (.ok declared, d) => (.ok (some declared), d)
      | (.error (.failed e), d) => (.ok none, d.resume e)
      | (.error .outOfFuel, d) => (.error .outOfFuel, d) := by
  have hprogress := h c nofun
  rw [recovering, outcome_bind, outcome_get]
  dsimp only
  rw [outcome_tryCatch, outcome_map]
  generalize outcome declaration c = r at hprogress ⊢
  cases hprogress with
  | ok => rfl
  | outOfFuel => rfl
  | @failed cause rule d hfatal hadvances =>
    have hdrop : c.rest.drop (c.rest.length - d.rest.length) = d.rest :=
      (List.suffix_iff_eq_drop.mp hadvances.suffix).symm
    simp only [outcome_bind, outcome_report, outcome_modify, outcome_pure, Cursor.remaining_fault,
      hdrop]
    rfl

lemma passes_recovering {declaration : Parser Stmt} (h : Passes false 1 declaration) :
    Passes true 1 (recovering declaration) := by
  intro c hc
  have hprogress := h c nofun
  rw [outcome_recovering h]
  generalize outcome declaration c = r at hprogress ⊢
  cases hprogress with
  | ok declared hadvances hpassed => exact .ok _ hadvances hpassed
  | outOfFuel d => exact .outOfFuel d
  | @failed cause rule d hfatal hadvances =>
    have hresume := hadvances.trans (Cursor.advances_resume hfatal rule)
    refine .ok none hresume ?_
    -- The cursor is not at the end at first, so it has moved if it is there now.
    by_contra hidle
    have hrest : resumption d.rest = c.rest := hresume.suffix.eq_of_length_le (by omega)
    have hopen : closes false d.rest = false := by
      refine Bool.eq_false_iff.mpr fun hend => ?_
      have hstart := hc rfl
      rw [← hrest, resumption_atEnd hend, hend] at hstart
      exact Bool.noConfusion hstart
    have hlt : (resumption d.rest).length < d.rest.length := length_resumption_lt hopen
    rw [hrest] at hlt
    exact absurd hadvances.suffix.length_le (Nat.not_le_of_lt hlt)

end Declarations

/-- What the parsers of statements pass, with so much fuel. -/
structure StatementsPass (fuel : Nat) : Prop where
  declarations : ∀ inBlock, Passes false 0 (Parser.declarations fuel inBlock)
  declaration : Passes false 1 (Parser.declaration fuel)
  statement : Passes false 1 (Parser.statement fuel)
  methods : Passes false 0 (Parser.methods fuel)

lemma passes_declarations (h : StatementsPass fuel) (inBlock : Bool) :
    Passes false 0 (declarations (fuel + 1) inBlock) :=
  passes_atClose (passes_pure []) ((passes_recovering h.declaration).bind fun _ =>
    (h.declarations inBlock).first fun _ => passes_pure _)

lemma passes_declaration (h : StatementsPass fuel) : Passes false 1 (declaration (fuel + 1)) := by
  refine passes_accept (by decide) ?_ (passes_accept (by decide) ?_ (passes_accept (by decide) ?_ ?_))
  · exact passes_classDeclaration h.methods
  · exact (passes_function .function fuel (h.declarations true)).map _
  · exact passes_varDeclaration (expressionsPass fuel).expression
  · exact h.statement

lemma passes_statement (h : StatementsPass fuel) : Passes false 1 (Parser.statement (fuel + 1)) := by
  have he := (expressionsPass fuel).expression
  have hkeyword {x : Parser Stmt} (hx : Passes false 1 x) : Passes true 1 (skip >>= fun _ => x) :=
    passes_skip.bind fun _ => hx
  refine passes_peek (fun t hend => by simp only [hend]) (passes_expressionStatement he) fun t _ => ?_
  dsimp only
  split
  case h_1 => exact hkeyword (passes_forStatement he h.statement)
  case h_2 => exact hkeyword (passes_ifStatement he h.statement)
  case h_3 => exact hkeyword (passes_printStatement he t)
  case h_4 => exact hkeyword (passes_returnStatement he t)
  case h_5 => exact hkeyword (passes_whileStatement he h.statement)
  case h_6 => exact hkeyword ((passes_block (h.declarations true)).map _)
  case h_7 => exact (passes_expressionStatement he).anywhere

lemma passes_methods (h : StatementsPass fuel) : Passes false 0 (methods (fuel + 1)) := by
  refine passes_atClose (passes_pure []) (Passes.anywhere ?_)
  exact ((passes_function .method fuel (h.declarations true)).uses (Nat.zero_le _)).first fun _ =>
    h.methods.first fun _ => passes_pure _

lemma statementsPass (fuel : Nat) : StatementsPass fuel := by
  induction fuel with
  | zero => constructor <;> intros <;> exact passes_outOfFuel
  | succ fuel ih =>
    exact
      { declarations := passes_declarations ih
        declaration := passes_declaration ih
        statement := passes_statement ih
        methods := passes_methods ih }

end Parser

end Lox
