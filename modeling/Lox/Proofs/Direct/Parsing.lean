import Lox.Proofs.Direct.Tree

/-! What is read as a program is what its loops come to in terms of the other statements. -/

namespace Lox.Direct

lemma Stmt.desugarAll_append (before after : List Stmt) :
    Stmt.desugarAll (before ++ after) = Stmt.desugarAll before ++ Stmt.desugarAll after := by
  induction before with
  | nil => rfl
  | cons stated rest ih => exact congrArg (stated.desugar :: ·) ih

namespace Parser

variable {α β : Type}

lemma map_ite (f : α → β) (p : Prop) [Decidable p] (x y : Parser α) :
    f <$> (if p then x else y) = if p then f <$> x else f <$> y :=
  apply_ite (f <$> ·) p x y

lemma map_tryCatch (f : α → β) (x : Parser α) (handle : Stop → Parser α) :
    f <$> tryCatch x handle = tryCatch (f <$> x) (fun stop => f <$> handle stop) := by
  funext c
  change outcome (f <$> tryCatch x handle) c = outcome (tryCatch (f <$> x) _) c
  rw [outcome_map, outcome_tryCatch, outcome_tryCatch, outcome_map]
  rcases outcome x c with ⟨stop | a, d⟩
  · exact (outcome_map ..).symm
  · rfl

section Statements

variable (value : Parser Expr) (statement : Parser Stmt)

lemma varDeclaration_desugar :
    Lox.Parser.varDeclaration value = Stmt.desugar <$> varDeclaration value := by
  simp only [Lox.Parser.varDeclaration, varDeclaration, map_bind, map_ite, map_pure, Stmt.desugar]

lemma expressionStatement_desugar :
    Lox.Parser.expressionStatement value = Stmt.desugar <$> expressionStatement value := by
  simp only [Lox.Parser.expressionStatement, expressionStatement, map_bind, map_pure, Stmt.desugar]

lemma printStatement_desugar (keyword : Token) :
    Lox.Parser.printStatement keyword value = Stmt.desugar <$> printStatement keyword value := by
  simp only [Lox.Parser.printStatement, printStatement, map_bind, map_pure, Stmt.desugar]

lemma returnStatement_desugar (keyword : Token) :
    Lox.Parser.returnStatement keyword value = Stmt.desugar <$> returnStatement keyword value := by
  simp only [Lox.Parser.returnStatement, returnStatement, map_bind, map_pure, Stmt.desugar]

lemma whileStatement_desugar :
    Lox.Parser.whileStatement value (Stmt.desugar <$> statement) =
      Stmt.desugar <$> whileStatement value statement := by
  simp only [Lox.Parser.whileStatement, whileStatement, map_bind, map_pure, bind_map_left,
    Stmt.desugar]

lemma ifStatement_desugar :
    Lox.Parser.ifStatement value (Stmt.desugar <$> statement) =
      Stmt.desugar <$> ifStatement value statement := by
  simp only [Lox.Parser.ifStatement, ifStatement, map_bind, map_ite, map_pure, bind_map_left,
    Functor.map_map, pure_bind, Stmt.desugar_ifElse, Option.map_some, Option.map_none]

lemma forInitial_desugar :
    Lox.Parser.forInitial value = Option.map Stmt.desugar <$> forInitial value := by
  simp only [Lox.Parser.forInitial, forInitial, varDeclaration_desugar, expressionStatement_desugar,
    map_bind, map_ite, map_pure, Functor.map_map, Option.map_some, Option.map_none]

lemma forStatement_desugar :
    Lox.Parser.forStatement value (Stmt.desugar <$> statement) =
      Stmt.desugar <$> forStatement value statement := by
  simp only [Lox.Parser.forStatement, forStatement, forInitial_desugar, map_bind, map_pure,
    bind_map_left, Stmt.desugar_forLoop]

end Statements

section Declarations

variable (body : Parser (List Stmt))

lemma block_desugar : Lox.Parser.block (Stmt.desugarAll <$> body) = Stmt.desugarAll <$> block body := by
  simp only [Lox.Parser.block, block, map_bind, map_pure, bind_map_left]

lemma function_desugar (role : FunctionRole) (names : Parser (List Name)) :
    Lox.Parser.function role names (Stmt.desugarAll <$> body) =
      FunctionDecl.desugar <$> function role names body := by
  simp only [Lox.Parser.function, function, block_desugar, map_bind, map_ite, map_pure, bind_map_left,
    FunctionDecl.desugar]

lemma classDeclaration_desugar (methods : Parser (List FunctionDecl)) :
    Lox.Parser.classDeclaration (FunctionDecl.desugarAll <$> methods) =
      Stmt.desugar <$> classDeclaration methods := by
  simp only [Lox.Parser.classDeclaration, classDeclaration, map_bind, map_pure, bind_map_left,
    Stmt.desugar, ClassDecl.desugar]

lemma recovering_desugar (declaration : Parser Stmt) :
    Lox.Parser.recovering (Stmt.desugar <$> declaration) =
      Option.map Stmt.desugar <$> recovering declaration := by
  rw [Lox.Parser.recovering, recovering, map_bind]
  congr 1
  funext start
  dsimp only
  rw [map_tryCatch, Functor.map_map, Functor.map_map]
  congr 1
  funext stop
  cases stop with
  | failed e => simp only [map_bind, map_pure, Option.map_none]
  | outOfFuel => rfl

end Declarations

/-- With so much fuel each kind of tree is read as what it comes to. -/
structure Desugars (fuel : Nat) : Prop where
  declarations : ∀ inBlock,
    Lox.Parser.declarations fuel inBlock = Stmt.desugarAll <$> declarations fuel inBlock
  declaration : Lox.Parser.declaration fuel = Stmt.desugar <$> declaration fuel
  statement : Lox.Parser.statement fuel = Stmt.desugar <$> statement fuel
  methods : Lox.Parser.methods fuel = FunctionDecl.desugarAll <$> methods fuel

variable {fuel : Nat}

lemma declarations_desugar (h : Desugars fuel) (inBlock : Bool) :
    Lox.Parser.declarations (fuel + 1) inBlock =
      Stmt.desugarAll <$> declarations (fuel + 1) inBlock := by
  have htoList (first : Option Stmt) :
      (first.map Stmt.desugar).toList = Stmt.desugarAll first.toList := by
    cases first <;> rfl
  simp only [Lox.Parser.declarations, declarations, h.declaration, h.declarations, recovering_desugar,
    map_bind, map_ite, map_pure, bind_map_left, htoList, Stmt.desugarAll_append]
  rfl

lemma declaration_desugar (h : Desugars fuel) :
    Lox.Parser.declaration (fuel + 1) = Stmt.desugar <$> declaration (fuel + 1) := by
  simp only [Lox.Parser.declaration, declaration, h.methods, h.declarations, h.statement,
    classDeclaration_desugar, function_desugar, varDeclaration_desugar, map_bind, map_ite,
    Functor.map_map, Stmt.desugar]

lemma statement_desugar (h : Desugars fuel) :
    Lox.Parser.statement (fuel + 1) = Stmt.desugar <$> statement (fuel + 1) := by
  rw [Lox.Parser.statement, statement, map_bind]
  congr 1
  funext token
  cases token with
  | none => exact expressionStatement_desugar _
  | some token =>
    simp only [h.statement, h.declarations, forStatement_desugar, ifStatement_desugar,
      printStatement_desugar, returnStatement_desugar, whileStatement_desugar, block_desugar,
      expressionStatement_desugar]
    cases token.kind <;> simp only [map_bind, Functor.map_map, Stmt.desugar]

lemma methods_desugar (h : Desugars fuel) :
    Lox.Parser.methods (fuel + 1) = FunctionDecl.desugarAll <$> methods (fuel + 1) := by
  simp only [Lox.Parser.methods, methods, h.declarations, h.methods, function_desugar, map_bind,
    map_ite, map_pure, bind_map_left, FunctionDecl.desugarAll]

lemma desugars (fuel : Nat) : Desugars fuel := by
  induction fuel with
  | zero => exact ⟨fun _ => rfl, rfl, rfl, rfl⟩
  | succ fuel ih =>
    exact ⟨declarations_desugar ih, declaration_desugar ih, statement_desugar ih, methods_desugar ih⟩

end Parser

/-- The program that tokens make up is what the one comes to that keeps its loops, and the faults are
the same. -/
theorem Program.parse_desugar (tokens : List Token) (n : Nat) :
    Lox.Program.parse tokens n =
      ((Program.parse tokens n).1.map Stmt.desugarAll, (Program.parse tokens n).2) := by
  rw [Lox.Parser.parse_eq_verdict, (Parser.desugars _).declarations, outcome_map, Program.parse]
  rcases outcome (Parser.declarations _ false) _ with ⟨stop | program, final⟩
  · rfl
  · obtain ⟨rest, nextId, _ | _⟩ := final <;> rfl

end Lox.Direct
