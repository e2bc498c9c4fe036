import Lox.Proofs.Recovery.Alike

/-! Every production does under check what it does without, so that no alarm is raised. -/

namespace Lox

namespace Parser

lemma ite_bind {α β : Type} (p : Prop) [Decidable p] (x y : Parser α) (f : α → Parser β) :
    (if p then x else y) >>= f = if p then x >>= f else y >>= f := by
  split <;> rfl

/-- What is read of a call behind its opening parenthesis. -/
def finishCall (callee : Expr) (arguments : Parser (List Expr)) : Parser Expr := do
  let given ← if ← check .rightParen then pure [] else arguments
  let paren ← expect .rightParen "')' after arguments" .call
  return .call callee given paren.line

lemma passes_finishCall {arguments : Parser (List Expr)} (h : Passes false 1 arguments)
    (callee : Expr) : Passes false 1 (finishCall callee arguments) := by
  have hrest (given : List Expr) : Passes false 1 (do
      let paren ← expect .rightParen "')' after arguments" .call
      return Expr.call callee given paren.line) :=
    (passes_expect (by decide) _ _).first fun _ => passes_pure _
  exact passes_check (by decide) ((passes_pure []).bind hrest) (h.bind hrest)

lemma passes_commaRound {α : Type} {item : Parser α} (h : Passes false 1 item) (count : Nat)
    (what : String) (rule : Rule) : Passes false 1 (do
      limit count what rule
      let a ← item
      return (a, ← accept .comma)) :=
  (passes_limit count what rule).bind fun _ => h.first fun _ =>
    passes_accept (by decide) (passes_pure _) (passes_pure _)

end Parser

namespace Checked

open Lox.Parser (Passes)

variable {fuel : Nat}

/-- A production that does the same under check, of parts that do. -/
lemma production_eq {α : Type} {x : Checked α} {y : Parser α} (h : Passes false 1 y) (hx : x = lift y) :
    production x = lift y := by
  rw [hx, production_lift h]

lemma round_eq {α : Type} {x : Checked α} {y : Parser α} (h : Passes false 1 y) (hx : x = lift y) :
    round x = lift y := by
  rw [hx, round_lift h]

section Expressions

variable {value : Parser Expr}

lemma primary_lift (h : Passes false 1 value) : primary (lift value) = lift (Parser.primary value) := by
  refine production_eq (Parser.passes_primary h) ?_
  rw [Parser.primary, lift_bind]
  refine peek_congr rfl fun t => ?_
  dsimp only
  split <;> try simp only [*]
  case h_10 => exact alike_rfl
  all_goals
    rw [lift_bind]
    refine alike_skip ?_
    simp

lemma finishCall_lift {given : Parser (List Expr)} (h : Passes false 1 given) (callee : Expr) :
    finishCall callee (lift given) = lift (Parser.finishCall callee given) :=
  production_eq (Parser.passes_finishCall h callee) (by simp [Parser.finishCall])

/-- What the parsers of expressions do under check, with so much fuel. -/
structure ExpressionsLift (fuel : Nat) : Prop where
  expression : expression fuel = lift (Parser.expression fuel)
  operators : ∀ tier, operators fuel tier = lift (Parser.operators fuel tier)
  operatorsAfter : ∀ tier left, operatorsAfter fuel tier left = lift (Parser.operatorsAfter fuel tier left)
  unary : unary fuel = lift (Parser.unary fuel)
  callsAfter : ∀ callee, callsAfter fuel callee = lift (Parser.callsAfter fuel callee)
  arguments : ∀ count, arguments fuel count = lift (Parser.arguments fuel count)

lemma ExpressionsLift.operand (h : ExpressionsLift fuel) (tier : Tier) :
    operand (Checked.operators fuel) (Checked.unary fuel) tier =
      lift (Parser.operand (Parser.operators fuel) (Parser.unary fuel) tier) := by
  cases tier with
  | factor => exact h.unary
  | disjunction | conjunction | equality | comparison | term => exact h.operators _

lemma expression_lift (h : ExpressionsLift fuel) :
    expression (fuel + 1) = lift (Parser.expression (fuel + 1)) := by
  rw [expression]
  refine production_eq (Parser.expressionsPass _).expression ?_
  rw [Parser.expression, h.operators, h.expression, lift_bind]
  congr 1
  funext target
  rw [lift_bind]
  refine check_congr (fun t => ?_) rfl
  simp only [if_true, lift_bind]
  intro c hc
  rw [ends_lift_bind, ends_lift_bind, Parser.outcome_faultHere]
  exact alike_skip rfl c hc

lemma operators_lift (h : ExpressionsLift fuel) (tier : Tier) :
    operators (fuel + 1) tier = lift (Parser.operators (fuel + 1) tier) := by
  rw [operators]
  refine production_eq ((Parser.expressionsPass _).operators tier) ?_
  simp [Parser.operators, h.operand, h.operatorsAfter]

lemma operatorsAfter_lift (h : ExpressionsLift fuel) (tier : Tier) (left : Expr) :
    operatorsAfter (fuel + 1) tier left = lift (Parser.operatorsAfter (fuel + 1) tier left) := by
  rw [operatorsAfter, Parser.operatorsAfter, lift_bind]
  refine peekOperator_congr tier.connective? rfl rfl ?_
  rintro ⟨connective, line⟩ t
  dsimp only
  rw [h.operand]
  exact alike_round (((Parser.expressionsPass fuel).operand tier).uses (Nat.zero_le _))
    fun right => h.operatorsAfter tier _

lemma call_lift (h : ExpressionsLift fuel) :
    call (primary (expression fuel)) (callsAfter fuel) =
      lift (Parser.primary (Parser.expression fuel) >>= Parser.callsAfter fuel) := by
  have he := Parser.expressionsPass fuel
  refine production_eq ((Parser.passes_primary he.expression).first he.callsAfter) ?_
  simp [h.expression, h.callsAfter, primary_lift he.expression]

lemma unary_lift (h : ExpressionsLift fuel) : unary (fuel + 1) = lift (Parser.unary (fuel + 1)) := by
  rw [unary]
  refine production_eq (Parser.expressionsPass _).unary ?_
  rw [Parser.unary, lift_bind]
  refine peekOperator_congr UnaryOp.ofKind? rfl (call_lift h) fun (op, line) t => ?_
  dsimp only
  rw [h.unary, lift_bind]
  exact alike_skip (by simp)

lemma callsAfter_lift (h : ExpressionsLift fuel) (callee : Expr) :
    callsAfter (fuel + 1) callee = lift (Parser.callsAfter (fuel + 1) callee) := by
  have hcall := Parser.passes_finishCall ((Parser.expressionsPass fuel).arguments 0) callee
  have hread : Parser.callsAfter (fuel + 1) callee = (do
      if ← Parser.check .leftParen then
        Parser.skip
        let call ← Parser.finishCall callee (Parser.arguments fuel 0)
        Parser.callsAfter fuel call
      else if ← Parser.check .dot then
        Parser.skip
        let property ← Expr.get callee <$> Parser.expectName "property name after '.'" .call
        Parser.callsAfter fuel property
      else return callee) := by
    simp [Parser.callsAfter, Parser.accept_bind, Parser.finishCall, Parser.ite_bind]
  rw [callsAfter, hread, lift_bind]
  refine check_congr (fun t => ?_) ?_
  · rw [h.arguments, finishCall_lift ((Parser.expressionsPass fuel).arguments 0)]
    exact alike_round (hcall.uses (Nat.zero_le _)) h.callsAfter
  · rw [if_neg Bool.false_ne_true, if_neg Bool.false_ne_true, lift_bind]
    refine check_congr (fun t => ?_) rfl
    have hproperty : (do
        return Expr.get callee (← expectName "property name after '.'" .call)) =
          lift (Expr.get callee <$> Parser.expectName "property name after '.'" .call) := by
      simp
    rw [hproperty, if_pos rfl, if_pos rfl]
    exact alike_round (((Parser.passes_expectName _ _).map _).uses (Nat.zero_le _))
      h.callsAfter

lemma arguments_lift (h : ExpressionsLift fuel) (count : Nat) :
    arguments (fuel + 1) count = lift (Parser.arguments (fuel + 1) count) := by
  rw [arguments, Parser.arguments]
  have hround : round (do
      lift (Parser.limit count "arguments" .call)
      let argument ← expression fuel
      return (argument, ← accept .comma)) = lift (do
        Parser.limit count "arguments" .call
        let argument ← Parser.expression fuel
        return (argument, ← Parser.accept .comma)) := by
    refine round_eq ?_ (by simp [h.expression])
    exact Parser.passes_commaRound (Parser.expressionsPass fuel).expression count _ _
  rw [hround]
  simp [h.arguments]

lemma expressionsLift (fuel : Nat) : ExpressionsLift fuel := by
  induction fuel with
  | zero => constructor <;> intros <;> rfl
  | succ fuel ih =>
    exact
      { expression := expression_lift ih
        operators := operators_lift ih
        operatorsAfter := operatorsAfter_lift ih
        unary := unary_lift ih
        callsAfter := callsAfter_lift ih
        arguments := arguments_lift ih }

end Expressions

section Statements

variable {value : Parser Expr} {statement : Parser Stmt} (hv : Passes false 1 value)

lemma expressionUnless_lift (kind : Token.Kind) :
    expressionUnless (lift value) kind = lift (Parser.expressionUnless kind value) := by
  simp [expressionUnless, Parser.expressionUnless]

include hv

lemma varDeclaration_lift : varDeclaration (lift value) = lift (Parser.varDeclaration value) :=
  production_eq (Parser.passes_varDeclaration hv) (by simp [Parser.varDeclaration])

lemma expressionStatement_lift :
    expressionStatement (lift value) = lift (Parser.expressionStatement value) :=
  production_eq (Parser.passes_expressionStatement hv) (by simp [Parser.expressionStatement])

lemma alike_printStatement {t : Token} (ht : t.kind ≠ .eof) :
    Alike t (printStatement (lift value)) (lift (Parser.skip >>= fun _ => Parser.printStatement t value)) := by
  refine Alike.production (fun c hc => ?_)
    (Parser.passes_skip.first fun _ => (Parser.passes_printStatement hv t).uses (Nat.zero_le _)) ht
  rw [ends_first_bind hc, lift_bind]
  exact alike_skip (by simp [Parser.printStatement]) c hc

lemma alike_returnStatement {t : Token} (ht : t.kind ≠ .eof) :
    Alike t (returnStatement (lift value)) (lift (Parser.skip >>= fun _ => Parser.returnStatement t value)) := by
  refine Alike.production (fun c hc => ?_)
    (Parser.passes_skip.first fun _ => (Parser.passes_returnStatement hv t).uses (Nat.zero_le _)) ht
  rw [ends_first_bind hc, lift_bind]
  exact alike_skip (by simp [Parser.returnStatement, expressionUnless_lift]) c hc

lemma forInitial_lift : forInitial (lift value) = lift (Parser.forInitial value) := by
  simp [forInitial, Parser.forInitial, varDeclaration_lift hv, expressionStatement_lift hv]

variable (hs : Passes false 1 statement)

include hs

lemma whileStatement_lift :
    whileStatement (lift value) (lift statement) = lift (Parser.whileStatement value statement) :=
  production_eq (Parser.passes_whileStatement hv hs) (by simp [Parser.whileStatement])

lemma ifStatement_lift :
    ifStatement (lift value) (lift statement) = lift (Parser.ifStatement value statement) :=
  production_eq (Parser.passes_ifStatement hv hs) (by simp [Parser.ifStatement])

lemma forStatement_lift :
    forStatement (lift value) (lift statement) = lift (Parser.forStatement value statement) :=
  production_eq (Parser.passes_forStatement hv hs)
    (by simp [Parser.forStatement, forInitial_lift hv, expressionUnless_lift])

end Statements

section Declarations

variable {body : Parser (List Stmt)} {read : Parser (List FunctionDecl)}

lemma block_lift (h : Passes false 0 body) : block (lift body) = lift (Parser.block body) :=
  production_eq (Parser.passes_block h) (by simp [Parser.block])

lemma parameters_lift (fuel count : Nat) :
    parameters fuel count = lift (Parser.parameters fuel count) := by
  induction fuel generalizing count with
  | zero => rfl
  | succ fuel ih =>
    have hround : round (do
        lift (Parser.limit count "parameters" .function)
        let parameter ← expectName "parameter name" .function
        return (parameter, ← accept .comma)) = lift (do
          Parser.limit count "parameters" .function
          let parameter ← Parser.expectName "parameter name" .function
          return (parameter, ← Parser.accept .comma)) := by
      refine round_eq ?_ (by simp)
      exact Parser.passes_commaRound (Parser.passes_expectName _ _) count _ _
    rw [parameters, Parser.parameters, hround]
    simp [ih]

lemma function_lift (role : FunctionRole) (fuel : Nat) (h : Passes false 0 body) :
    function role (parameters fuel 0) (lift body) =
      lift (Parser.function role (Parser.parameters fuel 0) body) :=
  production_eq (Parser.passes_function role fuel h)
    (by simp [Parser.function, parameters_lift, block_lift h])

lemma superclass_lift : superclass = lift Parser.superclass := by
  simp [superclass, Parser.superclass]

lemma classDeclaration_lift (h : Passes false 0 read) :
    classDeclaration (lift read) = lift (Parser.classDeclaration read) :=
  production_eq (Parser.passes_classDeclaration h) (by simp [Parser.classDeclaration, superclass_lift])

lemma recovering_lift {declaration : Parser Stmt} (h : Passes false 1 declaration) :
    recovering (lift declaration) = lift (Parser.recovering declaration) := by
  refine ext_ends fun c => ?_
  have hprogress := h c nofun
  rw [recovering, ends_slice_bind, ends_onFailure, ← lift_map, ends_lift, ends_lift,
    Parser.outcome_recovering h, outcome_map]
  generalize outcome declaration c = r at hprogress ⊢
  cases hprogress with
  | ok => rfl
  | outOfFuel => rfl
  | @failed cause rule d hfatal hadvances =>
    have hle : (d.fault cause rule).remaining ≤ c.rest.length := by
      rw [Cursor.remaining_fault]
      exact hadvances.suffix.length_le
    have hdrop : c.rest.drop (c.rest.length - (d.fault cause rule).remaining) = d.rest := by
      rw [Cursor.remaining_fault]
      exact (List.suffix_iff_eq_drop.mp hadvances.suffix).symm
    simp only [Except.map, demand_true hle, demand_true (Nat.sub_le _ _), pure_bind, hdrop,
      ends_lift_bind]
    rfl

end Declarations

/-- What the parsers of statements do under check, with so much fuel. -/
structure StatementsLift (fuel : Nat) : Prop where
  declarations : ∀ inBlock, declarations fuel inBlock = lift (Parser.declarations fuel inBlock)
  declaration : declaration fuel = lift (Parser.declaration fuel)
  statement : statement fuel = lift (Parser.statement fuel)
  methods : methods fuel = lift (Parser.methods fuel)

lemma declarations_lift (h : StatementsLift fuel) (inBlock : Bool) :
    declarations (fuel + 1) inBlock = lift (Parser.declarations (fuel + 1) inBlock) := by
  have hp := (Parser.statementsPass fuel).declaration
  rw [declarations, Parser.declarations, h.declaration, recovering_lift hp, lift_bind]
  refine ext_ends fun c => ?_
  rw [ends_lift_bind, ends_lift_bind, Parser.outcome_atClose]
  dsimp only
  cases hopen : Parser.closes inBlock c.rest with
  | true => rfl
  | false =>
    have hround : ends (round (lift (Parser.recovering (Parser.declaration fuel)))) c =
        ends (lift (Parser.recovering (Parser.declaration fuel))) c :=
      ends_round rfl fun _ _ hy => yields_of_progress
        (Parser.passes_recovering hp c fun _ => Parser.closes_of_inBlock hopen) hy
    rw [if_neg Bool.false_ne_true, if_neg Bool.false_ne_true, ends_bind, hround, ← ends_bind, lift_bind]
    simp [h.declarations]

lemma declaration_lift (h : StatementsLift fuel) :
    declaration (fuel + 1) = lift (Parser.declaration (fuel + 1)) := by
  have hp := Parser.statementsPass fuel
  rw [declaration]
  refine production_eq (Parser.statementsPass _).declaration ?_
  rw [h.methods, h.declarations, h.statement, (expressionsLift fuel).expression,
    classDeclaration_lift hp.methods, function_lift _ _ (hp.declarations true),
    varDeclaration_lift (Parser.expressionsPass fuel).expression]
  simp [Parser.declaration]

lemma statement_lift (h : StatementsLift fuel) :
    statement (fuel + 1) = lift (Parser.statement (fuel + 1)) := by
  have hv := (Parser.expressionsPass fuel).expression
  have hp := Parser.statementsPass fuel
  rw [statement]
  refine production_eq (Parser.statementsPass _).statement ?_
  rw [Parser.statement, lift_bind, (expressionsLift fuel).expression, h.statement, h.declarations,
    expressionStatement_lift hv]
  refine peek_congr rfl fun t => ?_
  dsimp only
  split <;> try simp only [*]
  case h_3 =>
    rename_i ht
    exact alike_printStatement hv (by simp [ht])
  case h_4 =>
    rename_i ht
    exact alike_returnStatement hv (by simp [ht])
  case h_7 => exact alike_rfl
  all_goals
    rw [lift_bind]
    refine alike_skip ?_
  · exact forStatement_lift hv hp.statement
  · exact ifStatement_lift hv hp.statement
  · exact whileStatement_lift hv hp.statement
  · rw [block_lift (hp.declarations true), lift_map]

lemma methods_lift (h : StatementsLift fuel) :
    methods (fuel + 1) = lift (Parser.methods (fuel + 1)) := by
  have hp := (Parser.statementsPass fuel).declarations true
  rw [methods, Parser.methods, h.declarations, h.methods]
  rw [round_eq (Parser.passes_function .method fuel hp) (function_lift _ _ hp)]
  simp

lemma statementsLift (fuel : Nat) : StatementsLift fuel := by
  induction fuel with
  | zero => constructor <;> intros <;> rfl
  | succ fuel ih =>
    exact
      { declarations := declarations_lift ih
        declaration := declaration_lift ih
        statement := statement_lift ih
        methods := methods_lift ih }

end Checked

end Lox
