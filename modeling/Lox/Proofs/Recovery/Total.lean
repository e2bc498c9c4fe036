import Lox.Proofs.Recovery.Program
import Lox.Proofs.Recovery.Unalarmed

/-! Reading is total. Every production comes to an end on whatever it is called on, and raises no alarm
under check; a program is read to its end. -/

namespace Lox

open Lox.Parser (Passes Progress startOf ample)

/-- The productions, each with what it reads. -/
inductive Production : Type → Type
  | declaration : Production Stmt
  | classDeclaration : Production Stmt
  | function (role : FunctionRole) : Production FunctionDecl
  | varDeclaration : Production Stmt
  | statement : Production Stmt
  | whileStatement : Production Stmt
  | ifStatement : Production Stmt
  | forStatement : Production Stmt
  | printStatement : Production Stmt
  | returnStatement : Production Stmt
  | expressionStatement : Production Stmt
  | block : Production (List Stmt)
  | expression : Production Expr
  | operators (tier : Tier) : Production Expr
  | unary : Production Expr
  | call : Production Expr
  | finishCall (callee : Expr) : Production Expr
  | primary : Production Expr

namespace Production

variable {α : Type}

/-- The production under check, with so much fuel for those that it calls. -/
def checked (fuel : Nat) : Production α → Checked α
  | declaration => Checked.declaration fuel
  | classDeclaration => Checked.classDeclaration (Checked.methods fuel)
  | function role => Checked.function role (Checked.parameters fuel 0) (Checked.declarations fuel true)
  | varDeclaration => Checked.varDeclaration (Checked.expression fuel)
  | statement => Checked.statement fuel
  | whileStatement => Checked.whileStatement (Checked.expression fuel) (Checked.statement fuel)
  | ifStatement => Checked.ifStatement (Checked.expression fuel) (Checked.statement fuel)
  | forStatement => Checked.forStatement (Checked.expression fuel) (Checked.statement fuel)
  | printStatement => Checked.printStatement (Checked.expression fuel)
  | returnStatement => Checked.returnStatement (Checked.expression fuel)
  | expressionStatement => Checked.expressionStatement (Checked.expression fuel)
  | block => Checked.block (Checked.declarations fuel true)
  | expression => Checked.expression fuel
  | operators tier => Checked.operators fuel tier
  | unary => Checked.unary fuel
  | call => Checked.call (Checked.primary (Checked.expression fuel)) (Checked.callsAfter fuel)
  | finishCall callee => Checked.finishCall callee (Checked.arguments fuel 0)
  | primary => Checked.primary (Checked.expression fuel)

/-- On which slices a production is called: two of them only where their keyword is. -/
def CalledOn : Production α → List Token → Prop
  | printStatement, tokens => ∃ t, tokens.head? = some t ∧ t.kind = .kwPrint
  | returnStatement, tokens => ∃ t, tokens.head? = some t ∧ t.kind = .kwReturn
  | _, _ => True

/-- A parser under check does in front of some tokens what it does without, passes one of them at least,
and comes to an end if there is fuel. -/
structure Reads (fuel : Nat) (x : Checked α) (c : Cursor) (y : Parser α) : Prop where
  same : Checked.ends x c = Checked.ends (Checked.lift y) c
  progress : Progress c 1 (outcome y c)
  agree (E : Endings) (front : List Token) : 16 * front.length + 12 ≤ fuel → E.Abreast front c c →
    E.Alongside front 1 (outcome y c) (outcome y c)

variable {fuel : Nat} {x : Checked α} {c : Cursor} {y : Parser α}

lemma Reads.of_lift (hx : x = Checked.lift y) (h : Passes false 1 y)
    (hagree : ∀ (E : Endings) size, 16 * size + 12 ≤ fuel → E.Agree 0 size 1 y y) : Reads fuel x c y where
  same := by rw [hx]
  progress := h c nofun
  agree E front hfuel := hagree E front.length hfuel front c c (Nat.zero_le _) (Nat.le_refl _)

lemma Reads.of_alike {t : Token} (hc : c.rest.head? = some t) (ht : t.kind ≠ .eof)
    (hx : Checked.Alike t x (Checked.lift (Parser.skip >>= fun _ => y))) (h : Passes false 0 y)
    (hagree : ∀ (E : Endings) size, 16 * size + 12 ≤ fuel → E.Agree 0 size 0 y y) :
    Reads fuel x c (Parser.skip >>= fun _ => y) where
  same := hx c hc
  progress := (Parser.passes_skip.first fun _ => h) c fun _ => Parser.closes_of_head? hc ht
  agree E front hfuel habreast := by
    have hleast : 1 ≤ front.length := by
      rcases habreast.head? with ⟨-, hrest, -⟩ | ⟨_, hleast, -, -, -⟩
      · have hopen := Parser.closes_of_head? hc ht
        rw [hrest, E.first_closes] at hopen
        exact Bool.noConfusion hopen
      · exact hleast
    have hskip : E.Agree 1 front.length 1 Parser.skip Parser.skip := Endings.agree_skip
    have hskipped := hskip.first fun _ left hleft => hagree E left (by omega)
    exact hskipped front c c hleast (Nat.le_refl _) habreast

lemma agree_finishCall {E : Endings} {size : Nat} {arguments : Parser (List Expr)} (callee : Expr)
    (h : E.Agree 0 size 1 arguments arguments) :
    E.Agree 0 size 1 (Parser.finishCall callee arguments) (Parser.finishCall callee arguments) :=
  Endings.agree_checkBind (by decide) (Endings.agree_pure []) h fun given _ _ =>
    (Endings.agree_expect (by decide) _ _).first fun paren _ _ => Endings.agree_pure _

section Within

variable (E : Endings) {size : Nat} (hfuel : 16 * size + 12 ≤ fuel)

include hfuel

lemma expression_within :
    ∀ left ≤ size, E.Agree 0 left 1 (Parser.expression fuel) (Parser.expression fuel) :=
  fun left _ => (E.expressions fuel fuel).expression left (by omega)

lemma statement_within :
    ∀ left ≤ size, E.Agree 0 left 1 (Parser.statement fuel) (Parser.statement fuel) :=
  fun left _ => (E.statements fuel fuel).statement left (by omega)

lemma body_within :
    ∀ left ≤ size, E.Agree 0 left 0 (Parser.declarations fuel true) (Parser.declarations fuel true) :=
  fun left _ => (E.statements fuel fuel).declarations true left (by omega)

end Within

lemma reads (p : Production α) (fuel : Nat) {c : Cursor} (h : p.CalledOn c.rest) :
    ∃ y, Reads fuel (p.checked fuel) c y := by
  have hpe := Parser.expressionsPass fuel
  have hle := Checked.expressionsLift fuel
  have hps := Parser.statementsPass fuel
  have hls := Checked.statementsLift fuel
  cases p with
  | declaration => exact ⟨_, .of_lift hls.declaration hps.declaration fun E size hfuel =>
      (E.statements fuel fuel).declaration size (by omega)⟩
  | classDeclaration =>
    rw [checked, hls.methods]
    exact ⟨_, .of_lift (Checked.classDeclaration_lift hps.methods)
      (Parser.passes_classDeclaration hps.methods) fun E size hfuel =>
        Endings.agree_classDeclaration fun left hleft =>
          (E.statements fuel fuel).methods left (by omega)⟩
  | function role =>
    rw [checked, hls.declarations]
    exact ⟨_, .of_lift (Checked.function_lift role fuel (hps.declarations true))
      (Parser.passes_function role fuel (hps.declarations true)) fun E size hfuel =>
        Endings.agree_function role (by omega) fun left hleft => body_within E hfuel left (by omega)⟩
  | varDeclaration =>
    rw [checked, hle.expression]
    exact ⟨_, .of_lift (Checked.varDeclaration_lift hpe.expression)
      (Parser.passes_varDeclaration hpe.expression) fun E size hfuel =>
        Endings.agree_varDeclaration (expression_within E hfuel)⟩
  | statement => exact ⟨_, .of_lift hls.statement hps.statement fun E size hfuel =>
      statement_within E hfuel size (Nat.le_refl _)⟩
  | whileStatement =>
    rw [checked, hle.expression, hls.statement]
    exact ⟨_, .of_lift (Checked.whileStatement_lift hpe.expression hps.statement)
      (Parser.passes_whileStatement hpe.expression hps.statement) fun E size hfuel =>
        Endings.agree_whileStatement (expression_within E hfuel) (statement_within E hfuel)⟩
  | ifStatement =>
    rw [checked, hle.expression, hls.statement]
    exact ⟨_, .of_lift (Checked.ifStatement_lift hpe.expression hps.statement)
      (Parser.passes_ifStatement hpe.expression hps.statement) fun E size hfuel =>
        Endings.agree_ifStatement (expression_within E hfuel) (statement_within E hfuel)⟩
  | forStatement =>
    rw [checked, hle.expression, hls.statement]
    exact ⟨_, .of_lift (Checked.forStatement_lift hpe.expression hps.statement)
      (Parser.passes_forStatement hpe.expression hps.statement) fun E size hfuel =>
        Endings.agree_forStatement (expression_within E hfuel) (statement_within E hfuel)⟩
  | printStatement =>
    obtain ⟨t, hc, hkind⟩ := h
    have ht : t.kind ≠ .eof := by simp [hkind]
    rw [checked, hle.expression]
    exact ⟨_, .of_alike hc ht (Checked.alike_printStatement hpe.expression ht)
      ((Parser.passes_printStatement hpe.expression t).uses (Nat.zero_le _)) fun E size hfuel =>
        (Endings.agree_printStatement (expression_within E hfuel) t).uses (Nat.zero_le _)⟩
  | returnStatement =>
    obtain ⟨t, hc, hkind⟩ := h
    have ht : t.kind ≠ .eof := by simp [hkind]
    rw [checked, hle.expression]
    exact ⟨_, .of_alike hc ht (Checked.alike_returnStatement hpe.expression ht)
      ((Parser.passes_returnStatement hpe.expression t).uses (Nat.zero_le _)) fun E size hfuel =>
        (Endings.agree_returnStatement (expression_within E hfuel) t).uses (Nat.zero_le _)⟩
  | expressionStatement =>
    rw [checked, hle.expression]
    exact ⟨_, .of_lift (Checked.expressionStatement_lift hpe.expression)
      (Parser.passes_expressionStatement hpe.expression) fun E size hfuel =>
        Endings.agree_expressionStatement (expression_within E hfuel)⟩
  | block =>
    rw [checked, hls.declarations]
    exact ⟨_, .of_lift (Checked.block_lift (hps.declarations true))
      (Parser.passes_block (hps.declarations true)) fun E size hfuel =>
        Endings.agree_block (body_within E hfuel size (Nat.le_refl _))⟩
  | expression => exact ⟨_, .of_lift hle.expression hpe.expression fun E size hfuel =>
      expression_within E hfuel size (Nat.le_refl _)⟩
  | operators tier => exact ⟨_, .of_lift (hle.operators tier) (hpe.operators tier)
      fun E size hfuel => (E.expressions fuel fuel).operators tier size (by omega)⟩
  | unary => exact ⟨_, .of_lift hle.unary hpe.unary fun E size hfuel =>
      (E.expressions fuel fuel).unary size (by omega)⟩
  | call =>
    exact ⟨_, .of_lift (Checked.call_lift hle) ((Parser.passes_primary hpe.expression).first
      hpe.callsAfter) fun E size hfuel => (Endings.agree_primary fun left hleft =>
        expression_within E hfuel left (by omega)).first fun callee left hleft =>
          (E.expressions fuel fuel).callsAfter callee left (by omega)⟩
  | finishCall callee =>
    rw [checked, hle.arguments]
    exact ⟨_, .of_lift (Checked.finishCall_lift (hpe.arguments 0) callee)
      (Parser.passes_finishCall (hpe.arguments 0) callee) fun E size hfuel =>
        agree_finishCall callee ((E.expressions fuel fuel).arguments 0 size (by omega))⟩
  | primary =>
    rw [checked, hle.expression]
    exact ⟨_, .of_lift (Checked.primary_lift hpe.expression) (Parser.passes_primary hpe.expression)
      fun E size hfuel => Endings.agree_primary fun left hleft =>
        expression_within E hfuel left (by omega)⟩

/-- How a production may end that is called on some tokens: with a proper suffix of them left, or with a
fault at a suffix of them, but with no alarm. -/
inductive EndsOn (tokens : List Token) : Except Stop (Except Alarm α) × Cursor → Prop
  | ok (a : α) {d : Cursor} (suffix : d.rest <:+ tokens) (proper : d.rest ≠ tokens) :
      EndsOn tokens (.ok (.ok a), d)
  | failed {e : ParseError} {offending : List Token} (d : Cursor) (suffix : offending <:+ tokens)
      (found : e.FoundAt offending) : EndsOn tokens (.error (.failed e), d)
  | outOfFuel (d : Cursor) : EndsOn tokens (.error .outOfFuel, d)

lemma ends_checked (p : Production α) (fuel : Nat) {c : Cursor} (h : p.CalledOn c.rest) :
    EndsOn c.rest (Checked.ends (p.checked fuel) c) := by
  obtain ⟨y, hreads⟩ := p.reads fuel h
  have hprogress := hreads.progress
  rw [hreads.same, Checked.ends_lift]
  generalize outcome y c = r at hprogress ⊢
  cases hprogress with
  | outOfFuel d => exact .outOfFuel d
  | @failed cause rule d hfatal hadvances =>
    exact .failed d hadvances.suffix (d.foundAt_fault cause rule)
  | ok a hadvances hpassed =>
    exact .ok a hadvances.suffix fun hrest => by rw [hrest] at hpassed; omega

lemma checked_ne_outOfFuel (p : Production α) {tokens : List Token} (h : p.CalledOn tokens) (n : Nat)
    {fuel : Nat} (hfuel : ample tokens.length ≤ fuel) :
    (Checked.ends (p.checked fuel) (startOf tokens n)).1 ≠ .error .outOfFuel := by
  obtain ⟨y, hreads⟩ := p.reads fuel (c := startOf tokens n) h
  obtain ⟨E, front, hfront, hstart⟩ := Parser.abreast_startOf tokens n
  have hagree := hreads.agree E front (by rw [ample] at hfuel; omega) hstart
  rw [hreads.same, Checked.ends_lift]
  rcases Parser.ends_of_alongside hagree with ⟨a, d, hends⟩ | ⟨e, d, hends⟩
  · simp [hends, Except.map]
  · simp [hends, Except.map]

end Production

/-- Reading is total. Every production, on whatever it is called and with whatever fuel, leaves a proper
suffix of that or fails at a suffix of it, where its fault is, and raises no alarm under check: no
slice or index is out of range, no count of tokens more than there were, and no round of a loop idle. With
fuel by the number of tokens it comes to an end, and a program is read to the end. -/
theorem Program.parse_total :
    (∀ {α : Type} (p : Production α) (fuel : Nat) (c : Cursor), p.CalledOn c.rest →
      Production.EndsOn c.rest (Checked.ends (p.checked fuel) c)) ∧
    (∀ {α : Type} (p : Production α) (tokens : List Token) (n fuel : Nat), p.CalledOn tokens →
      ample tokens.length ≤ fuel →
        (Checked.ends (p.checked fuel) (startOf tokens n)).1 ≠ .error .outOfFuel) ∧
    ∀ (tokens : List Token) (n : Nat), ∃ body d,
      Checked.ends (Checked.declarations (ample tokens.length) false) (startOf tokens n) =
        (.ok (.ok body), d) ∧
      d.rest <:+ tokens ∧ Parser.closes false d.rest = true ∧
      Program.parse tokens n = Parser.verdict (.ok body, d) := by
  refine ⟨fun p fuel c h => p.ends_checked fuel h, fun p tokens n fuel h hfuel =>
    p.checked_ne_outOfFuel h n hfuel, fun tokens n => ?_⟩
  obtain ⟨body, d, hread, hadvances, hcloses⟩ :=
    Parser.declarations_end tokens n false (Nat.le_refl (ample tokens.length))
  refine ⟨body, d, ?_, hadvances.suffix, hcloses, by rw [Parser.parse_eq_verdict, hread]⟩
  rw [(Checked.statementsLift _).declarations, Checked.ends_lift, hread]
  rfl

/-- A print statement, called where its keyword is. -/
theorem Program.parse_total_of_print :
    let ts : List Token := [⟨.kwPrint, "print", none, 1⟩, ⟨.kwNil, "nil", none, 1⟩,
      ⟨.semicolon, ";", none, 1⟩]
    let print : Production Stmt := .printStatement
    print.CalledOn ts ∧
      Checked.ends (print.checked 64) (startOf ts 0) =
        (.ok (.ok (.print 1 (.literal .nil))), ⟨[], 0, []⟩) ∧
      ([] <:+ ts ∧ [] ≠ ts) ∧
      (Checked.ends (print.checked 64) (startOf ts 0)).1 ≠ .error .outOfFuel := by
  intro ts print
  have hcalled : print.CalledOn ts := ⟨_, rfl, rfl⟩
  have hends : Checked.ends (print.checked 64) (startOf ts 0) =
      (.ok (.ok (.print 1 (.literal .nil))), ⟨[], 0, []⟩) := by cbv
  have hproper := parse_total.1 print 64 (startOf ts 0) hcalled
  rw [hends] at hproper
  cases hproper with
  | ok _ hsuffix hproper =>
    exact ⟨hcalled, hends, ⟨hsuffix, hproper⟩,
      parse_total.2.1 print ts 0 64 hcalled (Nat.le_refl 64)⟩

end Lox
