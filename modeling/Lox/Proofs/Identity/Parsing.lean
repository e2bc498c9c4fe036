import Lox.Proofs.Grammar.Steps
import Lox.Proofs.Identity.Renaming

/-! Parsers do not look at identities. From later ones they read the same trees with later
identities, and find the same faults. -/

namespace Lox

def Cursor.shift (r : Nat) (c : Cursor) : Cursor :=
  { c with nextId := c.nextId + r }

namespace Parser

variable {α β : Type} {r : Nat}

/-- With identities that are later by `r` the second parser stops where the first one does, and
reads the value that corresponds to that of the first. -/
def Shifts (r : Nat) (x y : Parser α) (act : α → α) : Prop :=
  ∀ c, outcome y (c.shift r) = ((outcome x c).1.map act, (outcome x c).2.shift r)

lemma Shifts.bind {x y : Parser α} {act : α → α} {f g : α → Parser β} {act' : β → β}
    (h : Shifts r x y act) (hf : ∀ a, Shifts r (f a) (g (act a)) act') :
    Shifts r (x >>= f) (y >>= g) act' := by
  intro c
  rw [outcome_bind, outcome_bind, h c]
  rcases outcome x c with ⟨_ | a, d⟩
  · rfl
  · exact hf a d

lemma Shifts.andThen {x : Parser α} {f g : α → Parser β} {act : β → β} (h : Shifts r x x id)
    (hf : ∀ a, Shifts r (f a) (g a) act) : Shifts r (x >>= f) (x >>= g) act :=
  h.bind hf

lemma shifts_pure {a b : α} {act : α → α} (h : b = act a) :
    Shifts r (pure a) (pure b) act := by
  intro c
  rw [h]
  rfl

lemma shifts_throw (stop : Stop) (act : α → α) : Shifts r (throw stop) (throw stop) act :=
  fun _ => rfl

lemma Shifts.map {x y : Parser α} {act : α → α} (h : Shifts r x y act) {f g : α → β} {act' : β → β}
    (hf : ∀ a, g (act a) = act' (f a)) : Shifts r (f <$> x) (g <$> y) act' := by
  rw [← bind_pure_comp, ← bind_pure_comp]
  exact h.bind fun a => shifts_pure (hf a)

lemma Shifts.tryCatch {x y : Parser α} {act : α → α} {f : Stop → Parser α} (h : Shifts r x y act)
    (hf : ∀ stop, Shifts r (f stop) (f stop) act) :
    Shifts r (tryCatch x f) (tryCatch y f) act := by
  intro c
  rw [outcome_tryCatch, outcome_tryCatch, h c]
  rcases outcome x c with ⟨stop | a, d⟩
  · exact hf stop d
  · rfl

lemma Shifts.ite {p : Prop} [Decidable p] {x y x' y' : Parser α} {act : α → α}
    (ht : Shifts r x y act) (hf : Shifts r x' y' act) :
    Shifts r (if p then x else x') (if p then y else y') act := by
  split
  · exact ht
  · exact hf

lemma Shifts.iteBind {p : Prop} [Decidable p] {x y x' y' : Parser α} (act : α → α)
    {f g : α → Parser β} {act' : β → β} (ht : Shifts r x y act) (hf : Shifts r x' y' act)
    (hrest : ∀ a, Shifts r (f a) (g (act a)) act') :
    Shifts r (if p then x >>= f else x' >>= f) (if p then y >>= g else y' >>= g) act' :=
  .ite (ht.bind hrest) (hf.bind hrest)

lemma get_shifts : Shifts r get get (Cursor.shift r) := fun _ => rfl

lemma peek_shifts : Shifts r peek peek id := fun _ => rfl

lemma check_shifts (kind : Token.Kind) : Shifts r (check kind) (check kind) id := fun _ => rfl

lemma skip_shifts : Shifts r skip skip id := fun _ => rfl

lemma report_shifts (e : ParseError) : Shifts r (report e) (report e) id := fun _ => rfl

lemma newReference_shifts (name : Name) :
    Shifts r (newReference name) (newReference name) (Reference.rename (· + r)) := by
  intro c
  simp only [outcome_newReference, Cursor.shift, Except.map, Reference.rename]
  rw [Nat.add_right_comm]

lemma faultHere_shifts (cause : ParseError.Cause) (rule : Rule) :
    Shifts r (faultHere cause rule) (faultHere cause rule) id := by
  intro c
  simp only [outcome_faultHere]
  rfl

lemma fail_shifts (cause : ParseError.Cause) (rule : Rule) (act : α → α) :
    Shifts r (fail cause rule) (fail cause rule) act :=
  (faultHere_shifts cause rule).andThen fun _ => shifts_throw _ _

lemma accept_shifts (kind : Token.Kind) : Shifts r (accept kind) (accept kind) id :=
  (check_shifts kind).andThen fun _ =>
    .ite (skip_shifts.andThen fun _ => shifts_pure rfl) (shifts_pure rfl)

lemma expect_shifts (kind : Token.Kind) (what : String) (rule : Rule) :
    Shifts r (expect kind what rule) (expect kind what rule) id := by
  refine peek_shifts.andThen fun next => ?_
  rcases next with _ | t
  · exact fail_shifts _ _ _
  · exact .ite (skip_shifts.andThen fun _ => shifts_pure rfl) (fail_shifts _ _ _)

lemma expectName_shifts (what : String) (rule : Rule) :
    Shifts r (expectName what rule) (expectName what rule) id :=
  (expect_shifts _ what rule).andThen fun _ => shifts_pure rfl

lemma limit_shifts (count : Nat) (what : String) (rule : Rule) :
    Shifts r (limit count what rule) (limit count what rule) id :=
  .ite ((faultHere_shifts _ _).andThen fun e => report_shifts e) (shifts_pure rfl)

lemma atClose_shifts (inBlock : Bool) : Shifts r (atClose inBlock) (atClose inBlock) id := by
  refine peek_shifts.andThen fun next => ?_
  cases next <;> exact shifts_pure rfl

lemma peekConnective_shifts (tier : Tier) :
    Shifts r (peekConnective tier) (peekConnective tier) id :=
  peek_shifts.andThen fun _ => shifts_pure rfl

lemma peekUnaryOp_shifts : Shifts r peekUnaryOp peekUnaryOp id :=
  peek_shifts.andThen fun _ => shifts_pure rfl

lemma parameters_shifts (fuel count : Nat) :
    Shifts r (parameters fuel count) (parameters fuel count) id := by
  induction fuel generalizing count with
  | zero => exact shifts_throw _ _
  | succ fuel ih =>
    refine (limit_shifts _ _ _).andThen fun _ => (expectName_shifts _ _).andThen fun _ =>
      (accept_shifts _).andThen fun _ => .ite ?_ (shifts_pure rfl)
    exact (ih (count + 1)).andThen fun _ => shifts_pure rfl

abbrev ShiftsTo (r : Nat) (x : Parser α) (act : α → α) : Prop :=
  Shifts r x x act

section Expressions

lemma assignTo_shifts (fault : ParseError) (target value : Expr) :
    Shifts r (assignTo fault target value)
      (assignTo fault (target.rename (· + r)) (value.rename (· + r))) (Expr.rename (· + r)) := by
  cases target with
  | read | get => exact shifts_pure rfl
  | literal | grouping | unary | binary | logical | assign | call | set | this | super =>
    exact (report_shifts fault).andThen fun _ => shifts_pure rfl

lemma primary_shifts {x : Parser Expr} (h : ShiftsTo r x (Expr.rename (· + r))) :
    ShiftsTo r (primary x) (Expr.rename (· + r)) := by
  refine peek_shifts.andThen fun next => ?_
  rcases next with _ | t
  · exact fail_shifts _ _ _
  dsimp only
  split
  case h_1 | h_2 | h_3 | h_4 | h_5 => exact skip_shifts.andThen fun _ => shifts_pure rfl
  case h_6 | h_7 =>
    exact skip_shifts.andThen fun _ => (newReference_shifts _).bind fun _ => shifts_pure rfl
  case h_8 =>
    exact skip_shifts.andThen fun _ => (expect_shifts _ _ _).andThen fun _ =>
      (expectName_shifts _ _).andThen fun _ => (newReference_shifts _).bind fun _ => shifts_pure rfl
  case h_9 =>
    exact skip_shifts.andThen fun _ => h.bind fun _ => (expect_shifts _ _ _).andThen fun _ =>
      shifts_pure rfl
  case h_10 => exact fail_shifts _ _ _

structure ExpressionsShift (r fuel : Nat) : Prop where
  expression : ShiftsTo r (Parser.expression fuel) (Expr.rename (· + r))
  operators : ∀ tier, ShiftsTo r (Parser.operators fuel tier) (Expr.rename (· + r))
  operatorsAfter : ∀ tier left, Shifts r (Parser.operatorsAfter fuel tier left)
    (Parser.operatorsAfter fuel tier (left.rename (· + r))) (Expr.rename (· + r))
  unary : ShiftsTo r (Parser.unary fuel) (Expr.rename (· + r))
  callsAfter : ∀ callee, Shifts r (Parser.callsAfter fuel callee)
    (Parser.callsAfter fuel (callee.rename (· + r))) (Expr.rename (· + r))
  arguments : ∀ count, ShiftsTo r (Parser.arguments fuel count) (Expr.renameAll (· + r))

variable {fuel : Nat}

lemma ExpressionsShift.operand (h : ExpressionsShift r fuel) (tier : Tier) :
    ShiftsTo r (Parser.operand (Parser.operators fuel) (Parser.unary fuel) tier)
      (Expr.rename (· + r)) := by
  unfold Parser.operand
  split
  · exact h.operators _
  · exact h.unary

lemma Connective.rename_join (ρ : Nat → Nat) (connective : Connective) (line : Nat)
    (left right : Expr) : (connective.join line left right).rename ρ =
      connective.join line (left.rename ρ) (right.rename ρ) := by
  cases connective <;> rfl

lemma expression_shifts (h : ExpressionsShift r fuel) :
    ShiftsTo r (expression (fuel + 1)) (Expr.rename (· + r)) := by
  refine (h.operators _).bind fun target => (check_shifts _).andThen fun _ =>
    .ite ?_ (shifts_pure rfl)
  exact (faultHere_shifts _ _).andThen fun fault => skip_shifts.andThen fun _ =>
    h.expression.bind fun value => assignTo_shifts fault target value

lemma operatorsAfter_shifts (h : ExpressionsShift r fuel) (tier : Tier) (left : Expr) :
    Shifts r (operatorsAfter (fuel + 1) tier left)
      (operatorsAfter (fuel + 1) tier (left.rename (· + r))) (Expr.rename (· + r)) := by
  refine (peekConnective_shifts tier).andThen fun next => ?_
  rcases next with _ | ⟨connective, line⟩
  · exact shifts_pure rfl
  · refine skip_shifts.andThen fun _ => (h.operand tier).bind fun right => ?_
    rw [← Connective.rename_join]
    exact h.operatorsAfter tier _

lemma unary_shifts (h : ExpressionsShift r fuel) :
    ShiftsTo r (unary (fuel + 1)) (Expr.rename (· + r)) := by
  refine peekUnaryOp_shifts.andThen fun next => ?_
  rcases next with _ | ⟨op, line⟩
  · exact (primary_shifts h.expression).bind fun callee => h.callsAfter callee
  · exact skip_shifts.andThen fun _ => h.unary.bind fun _ => shifts_pure rfl

lemma callsAfter_shifts (h : ExpressionsShift r fuel) (callee : Expr) :
    Shifts r (callsAfter (fuel + 1) callee) (callsAfter (fuel + 1) (callee.rename (· + r)))
      (Expr.rename (· + r)) := by
  refine (accept_shifts _).andThen fun _ => .ite ?_ ((accept_shifts _).andThen fun _ => .ite ?_ ?_)
  · exact (check_shifts _).andThen fun _ =>
      .iteBind (Expr.renameAll (· + r)) (shifts_pure rfl) (h.arguments 0) fun given =>
        (expect_shifts _ _ _).andThen fun paren => h.callsAfter (.call callee given paren.line)
  · exact (expectName_shifts _ _).andThen fun property => h.callsAfter (.get callee property)
  · exact shifts_pure rfl

lemma arguments_shifts (h : ExpressionsShift r fuel) (count : Nat) :
    ShiftsTo r (arguments (fuel + 1) count) (Expr.renameAll (· + r)) := by
  refine (limit_shifts _ _ _).andThen fun _ => h.expression.bind fun _ =>
    (accept_shifts _).andThen fun _ => .ite ?_ (shifts_pure rfl)
  exact (h.arguments (count + 1)).bind fun _ => shifts_pure rfl

lemma expressionsShift (r fuel : Nat) : ExpressionsShift r fuel := by
  induction fuel with
  | zero => constructor <;> intros <;> exact shifts_throw _ _
  | succ fuel ih =>
    exact
      { expression := expression_shifts ih
        operators := fun tier => (ih.operand tier).bind fun left => ih.operatorsAfter tier left
        operatorsAfter := operatorsAfter_shifts ih
        unary := unary_shifts ih
        callsAfter := callsAfter_shifts ih
        arguments := arguments_shifts ih }

end Expressions

section Statements

variable {expression : Parser Expr} {statement : Parser Stmt} {declarations : Parser (List Stmt)}

lemma expressionUnless_shifts (kind : Token.Kind) (h : ShiftsTo r expression (Expr.rename (· + r))) :
    ShiftsTo r (expressionUnless kind expression) (Option.map (Expr.rename (· + r))) :=
  (check_shifts kind).andThen fun _ => .ite (shifts_pure rfl) (h.bind fun _ => shifts_pure rfl)

lemma varDeclaration_shifts (h : ShiftsTo r expression (Expr.rename (· + r))) :
    ShiftsTo r (varDeclaration expression) (Stmt.rename (· + r)) :=
  (expectName_shifts _ _).andThen fun _ => (accept_shifts _).andThen fun _ =>
    .iteBind (Option.map (Expr.rename (· + r))) (h.map fun _ => rfl) (shifts_pure rfl)
      fun _ => (expect_shifts _ _ _).andThen fun _ => shifts_pure rfl

lemma expressionStatement_shifts (h : ShiftsTo r expression (Expr.rename (· + r))) :
    ShiftsTo r (expressionStatement expression) (Stmt.rename (· + r)) :=
  h.bind fun _ => (expect_shifts _ _ _).andThen fun _ => shifts_pure rfl

lemma printStatement_shifts (keyword : Token) (h : ShiftsTo r expression (Expr.rename (· + r))) :
    ShiftsTo r (printStatement keyword expression) (Stmt.rename (· + r)) :=
  h.bind fun _ => (expect_shifts _ _ _).andThen fun _ => shifts_pure rfl

lemma returnStatement_shifts (keyword : Token) (h : ShiftsTo r expression (Expr.rename (· + r))) :
    ShiftsTo r (returnStatement keyword expression) (Stmt.rename (· + r)) :=
  (expressionUnless_shifts _ h).bind fun _ => (expect_shifts _ _ _).andThen fun _ => shifts_pure rfl

lemma whileStatement_shifts (h : ShiftsTo r expression (Expr.rename (· + r)))
    (hs : ShiftsTo r statement (Stmt.rename (· + r))) :
    ShiftsTo r (whileStatement expression statement) (Stmt.rename (· + r)) :=
  (expect_shifts _ _ _).andThen fun _ => h.bind fun _ => (expect_shifts _ _ _).andThen fun _ =>
    hs.bind fun _ => shifts_pure rfl

lemma ifStatement_shifts (h : ShiftsTo r expression (Expr.rename (· + r)))
    (hs : ShiftsTo r statement (Stmt.rename (· + r))) :
    ShiftsTo r (ifStatement expression statement) (Stmt.rename (· + r)) := by
  refine (expect_shifts _ _ _).andThen fun _ => h.bind fun _ => (expect_shifts _ _ _).andThen fun _ =>
    hs.bind fun _ => (accept_shifts _).andThen fun _ =>
      .iteBind (Option.map (Stmt.rename (· + r))) (hs.map fun _ => rfl) (shifts_pure rfl)
        fun other => ?_
  cases other <;> exact shifts_pure rfl

lemma forInitial_shifts (h : ShiftsTo r expression (Expr.rename (· + r))) :
    ShiftsTo r (forInitial expression) (Option.map (Stmt.rename (· + r))) := by
  refine (accept_shifts _).andThen fun _ => .ite (shifts_pure rfl) ?_
  refine (accept_shifts _).andThen fun _ => .ite ?_ ?_
  · exact (varDeclaration_shifts h).map fun _ => rfl
  · exact (expressionStatement_shifts h).map fun _ => rfl

lemma Stmt.rename_forLoop (ρ : Nat → Nat) (initial : Option Stmt)
    (condition increment : Option Expr) (body : Stmt) :
    (Stmt.forLoop initial condition increment body).rename ρ =
      .forLoop (initial.map (Stmt.rename ρ)) (condition.map (Expr.rename ρ))
        (increment.map (Expr.rename ρ)) (body.rename ρ) := by
  cases initial <;> cases condition <;> cases increment <;> rfl

lemma forStatement_shifts (h : ShiftsTo r expression (Expr.rename (· + r)))
    (hs : ShiftsTo r statement (Stmt.rename (· + r))) :
    ShiftsTo r (forStatement expression statement) (Stmt.rename (· + r)) :=
  (expect_shifts _ _ _).andThen fun _ => (forInitial_shifts h).bind fun _ =>
    (expressionUnless_shifts _ h).bind fun _ => (expect_shifts _ _ _).andThen fun _ =>
      (expressionUnless_shifts _ h).bind fun _ => (expect_shifts _ _ _).andThen fun _ =>
        hs.bind fun _ => shifts_pure (Stmt.rename_forLoop ..).symm

lemma block_shifts (h : ShiftsTo r declarations (Stmt.renameAll (· + r))) :
    ShiftsTo r (block declarations) (Stmt.renameAll (· + r)) :=
  h.bind fun _ => (expect_shifts _ _ _).andThen fun _ => shifts_pure rfl

lemma function_shifts (role : FunctionRole) (fuel : Nat)
    (h : ShiftsTo r declarations (Stmt.renameAll (· + r))) :
    ShiftsTo r (function role (parameters fuel 0) declarations) (FunctionDecl.rename (· + r)) :=
  (expectName_shifts _ _).andThen fun _ => (expect_shifts _ _ _).andThen fun _ =>
    (check_shifts _).andThen fun _ =>
      .iteBind id (shifts_pure rfl) (parameters_shifts fuel 0) fun _ =>
        (expect_shifts _ _ _).andThen fun _ => (expect_shifts _ _ _).andThen fun _ =>
          (block_shifts h).bind fun _ => shifts_pure rfl

lemma superclass_shifts : ShiftsTo r superclass (Option.map (Reference.rename (· + r))) :=
  (accept_shifts _).andThen fun _ => .ite ((expectName_shifts _ _).andThen fun name =>
    (newReference_shifts name).bind fun _ => shifts_pure rfl) (shifts_pure rfl)

lemma classDeclaration_shifts {methods : Parser (List FunctionDecl)}
    (h : ShiftsTo r methods (FunctionDecl.renameAll (· + r))) :
    ShiftsTo r (classDeclaration methods) (Stmt.rename (· + r)) :=
  (expectName_shifts _ _).andThen fun _ => superclass_shifts.bind fun _ =>
    (expect_shifts _ _ _).andThen fun _ => h.bind fun _ => (expect_shifts _ _ _).andThen fun _ =>
      shifts_pure rfl

lemma recovering_shifts (h : ShiftsTo r statement (Stmt.rename (· + r))) :
    ShiftsTo r (recovering statement) (Option.map (Stmt.rename (· + r))) := by
  have hsome : ShiftsTo r (some <$> statement) (Option.map (Stmt.rename (· + r))) :=
    h.map fun _ => rfl
  refine get_shifts.bind fun start => hsome.tryCatch fun stop => ?_
  cases stop with
  | failed e =>
    have hresume : ShiftsTo r (modify fun c : Cursor =>
        { c with rest := resumption (start.rest.drop (start.rest.length - e.remaining)) }) id :=
      fun _ => rfl
    exact (report_shifts e).andThen fun _ => hresume.andThen fun _ => shifts_pure rfl
  | outOfFuel => exact shifts_throw _ _

structure StatementsShift (r fuel : Nat) : Prop where
  declarations : ∀ inBlock,
    ShiftsTo r (Parser.declarations fuel inBlock) (Stmt.renameAll (· + r))
  declaration : ShiftsTo r (Parser.declaration fuel) (Stmt.rename (· + r))
  statement : ShiftsTo r (Parser.statement fuel) (Stmt.rename (· + r))
  methods : ShiftsTo r (Parser.methods fuel) (FunctionDecl.renameAll (· + r))

variable {fuel : Nat}

lemma declarations_shifts (h : StatementsShift r fuel) (inBlock : Bool) :
    ShiftsTo r (Parser.declarations (fuel + 1) inBlock) (Stmt.renameAll (· + r)) := by
  refine (atClose_shifts inBlock).andThen fun _ => .ite (shifts_pure rfl) ?_
  refine (recovering_shifts h.declaration).bind fun first =>
    (h.declarations inBlock).bind fun _ => shifts_pure ?_
  cases first <;> rfl

lemma declaration_shifts (h : StatementsShift r fuel) :
    ShiftsTo r (declaration (fuel + 1)) (Stmt.rename (· + r)) := by
  refine (accept_shifts _).andThen fun _ => .ite (classDeclaration_shifts h.methods) ?_
  refine (accept_shifts _).andThen fun _ => .ite ?_ ?_
  · exact (function_shifts _ fuel (h.declarations true)).map fun _ => rfl
  · exact (accept_shifts _).andThen fun _ =>
      .ite (varDeclaration_shifts (expressionsShift r fuel).expression) h.statement

lemma statement_shifts (h : StatementsShift r fuel) :
    ShiftsTo r (Parser.statement (fuel + 1)) (Stmt.rename (· + r)) := by
  have he := (expressionsShift r fuel).expression
  refine peek_shifts.andThen fun next => ?_
  rcases next with _ | t
  · exact expressionStatement_shifts he
  dsimp only
  split
  case h_1 => exact skip_shifts.andThen fun _ => forStatement_shifts he h.statement
  case h_2 => exact skip_shifts.andThen fun _ => ifStatement_shifts he h.statement
  case h_3 => exact skip_shifts.andThen fun _ => printStatement_shifts t he
  case h_4 => exact skip_shifts.andThen fun _ => returnStatement_shifts t he
  case h_5 => exact skip_shifts.andThen fun _ => whileStatement_shifts he h.statement
  case h_6 =>
    exact skip_shifts.andThen fun _ => (block_shifts (h.declarations true)).map fun _ => rfl
  case h_7 => exact expressionStatement_shifts he

lemma methods_shifts (h : StatementsShift r fuel) :
    ShiftsTo r (methods (fuel + 1)) (FunctionDecl.renameAll (· + r)) := by
  refine (atClose_shifts true).andThen fun _ => .ite (shifts_pure rfl) ?_
  exact (function_shifts _ fuel (h.declarations true)).bind fun _ =>
    h.methods.bind fun _ => shifts_pure rfl

lemma statementsShift (r fuel : Nat) : StatementsShift r fuel := by
  induction fuel with
  | zero => constructor <;> intros <;> exact shifts_throw _ _
  | succ fuel ih =>
    exact
      { declarations := declarations_shifts ih
        declaration := declaration_shifts ih
        statement := statement_shifts ih
        methods := methods_shifts ih }

end Statements

end Parser

/-- From later identities tokens have the same faults, or make up the same tree with later
identities. -/
lemma Program.parse_shift (tokens : List Token) (n r : Nat) :
    Program.parse tokens (n + r) =
      ((Program.parse tokens n).1.map (Stmt.renameAll (· + r)), (Program.parse tokens n).2 + r) := by
  have hstart : Parser.startOf tokens (n + r) = (Parser.startOf tokens n).shift r := rfl
  have hverdict (result : Except Stop (List Stmt)) (final : Cursor) :
      Parser.verdict (result.map (Stmt.renameAll (· + r)), final.shift r) =
        ((Parser.verdict (result, final)).1.map (Stmt.renameAll (· + r)),
          (Parser.verdict (result, final)).2 + r) := by
    obtain ⟨rest, nextId, errors⟩ := final
    cases result <;> cases errors <;> rfl
  rw [Parser.parse_eq_verdict, Parser.parse_eq_verdict, hstart,
    (Parser.statementsShift r _).declarations false (Parser.startOf tokens n), hverdict]

end Lox
