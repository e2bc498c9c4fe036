import Lox.Proofs.Direct.Tree
import Lox.Proofs.Grammar.Proper

/-! Trees that are read from tokens: the body of a loop with clauses is no declaration, so that the
increment has no name from it in sight. -/

namespace Lox.Direct

mutual

def Stmt.Formed : Stmt → Prop
  | .expression _ | .print .. | .varDecl .. | .ret .. => True
  | .functionDecl decl => decl.Formed
  | .classDecl decl => decl.Formed
  | .block body => Stmt.FormedAll body
  | .ifElse _ thenBranch none => thenBranch.Formed
  | .ifElse _ thenBranch (some elseBranch) => thenBranch.Formed ∧ elseBranch.Formed
  | .whileLoop _ body => body.Formed
  | .forLoop none _ _ body => body.desugar.isDeclaration = false ∧ body.Formed
  | .forLoop (some first) _ _ body =>
    first.Formed ∧ body.desugar.isDeclaration = false ∧ body.Formed

def Stmt.FormedAll : List Stmt → Prop
  | [] => True
  | stated :: rest => stated.Formed ∧ Stmt.FormedAll rest

def FunctionDecl.Formed : FunctionDecl → Prop
  | ⟨_, _, body⟩ => Stmt.FormedAll body

def FunctionDecl.FormedAll : List FunctionDecl → Prop
  | [] => True
  | decl :: rest => decl.Formed ∧ FunctionDecl.FormedAll rest

def ClassDecl.Formed : ClassDecl → Prop
  | ⟨_, _, methods⟩ => FunctionDecl.FormedAll methods

end

lemma Stmt.formedAll_append {before after : List Stmt} (hb : Stmt.FormedAll before)
    (ha : Stmt.FormedAll after) : Stmt.FormedAll (before ++ after) := by
  induction before with
  | nil => exact ha
  | cons stated rest ih => exact ⟨hb.1, ih hb.2⟩

lemma FunctionDecl.formed_iff {decl : FunctionDecl} : decl.Formed ↔ Stmt.FormedAll decl.body := by
  cases decl
  rfl

lemma FunctionDecl.formedAll_iff {decls : List FunctionDecl} :
    FunctionDecl.FormedAll decls ↔ ∀ decl ∈ decls, decl.Formed := by
  induction decls with
  | nil => simp [FunctionDecl.FormedAll]
  | cons decl rest ih => simp [FunctionDecl.FormedAll, ih]

lemma ClassDecl.formed_iff {decl : ClassDecl} :
    decl.Formed ↔ ∀ method ∈ decl.methods, method.Formed := by
  cases decl
  rw [ClassDecl.Formed, FunctionDecl.formedAll_iff]

namespace Parser

open Lox.Parser

variable {α β : Type} {p : α → Prop} {q : β → Prop}

/-- Whatever is read is so. -/
def Always (p : α → Prop) (x : Parser α) : Prop :=
  ∀ c a d, Yields x c a d → p a

lemma always_pure {a : α} (h : p a) : Always p (pure a) := by
  intro c b d hyields
  obtain ⟨rfl, -⟩ := yields_pure.mp hyields
  exact h

lemma Always.bind {x : Parser β} {f : β → Parser α} (hx : Always q x)
    (hf : ∀ b, q b → Always p (f b)) : Always p (x >>= f) := by
  intro c a d hyields
  obtain ⟨b, e, hb, ha⟩ := yields_bind.mp hyields
  exact hf b (hx c b e hb) e a d ha

lemma always_bind {x : Parser β} {f : β → Parser α} (hf : ∀ b, Always p (f b)) :
    Always p (x >>= f) :=
  .bind (fun _ _ _ _ => trivial) fun b (_ : True) => hf b

lemma Always.map {x : Parser β} {f : β → α} (hx : Always q x) (hf : ∀ b, q b → p (f b)) :
    Always p (f <$> x) := by
  rw [← bind_pure_comp]
  exact hx.bind fun b hb => always_pure (hf b hb)

lemma Always.ite {b : Prop} [Decidable b] {x y : Parser α} (hx : Always p x) (hy : Always p y) :
    Always p (if b then x else y) := by
  split
  · exact hx
  · exact hy

/-- A statement that is no declaration. -/
def Plain (stated : Stmt) : Prop :=
  stated.desugar.isDeclaration = false ∧ stated.Formed

lemma Always.formed {x : Parser Stmt} (h : Always Plain x) : Always Stmt.Formed x :=
  fun c stated d hyields => (h c stated d hyields).2

section Statements

variable {value : Parser Expr} {statement : Parser Stmt}

lemma always_varDeclaration : Always Stmt.Formed (varDeclaration value) := by
  have hrest (name : Name) (initial : Option Expr) : Always Stmt.Formed (do
      let _ ← expect .semicolon "';' after variable declaration" .varDeclaration
      return .varDecl name initial) := always_bind fun _ => always_pure trivial
  exact always_bind fun name => always_bind fun _ =>
    .ite (always_bind (hrest name)) (always_bind (hrest name))

lemma always_expressionStatement : Always Plain (expressionStatement value) :=
  always_bind fun _ => always_bind fun _ => always_pure ⟨rfl, trivial⟩

lemma always_printStatement (keyword : Token) : Always Plain (printStatement keyword value) :=
  always_bind fun _ => always_bind fun _ => always_pure ⟨rfl, trivial⟩

lemma always_returnStatement (keyword : Token) : Always Plain (returnStatement keyword value) :=
  always_bind fun _ => always_bind fun _ => always_pure ⟨rfl, trivial⟩

lemma always_whileStatement (h : Always Plain statement) :
    Always Plain (whileStatement value statement) :=
  always_bind fun _ => always_bind fun _ => always_bind fun _ =>
    h.bind fun _ hbody => always_pure ⟨rfl, hbody.2⟩

lemma always_some {stated : Parser Stmt} (h : Always Stmt.Formed stated) :
    Always (fun found => ∀ given ∈ found, given.Formed) (some <$> stated) := by
  refine h.map fun given hgiven => ?_
  rintro _ ⟨⟩
  exact hgiven

lemma always_ifStatement (h : Always Plain statement) : Always Plain (ifStatement value statement) := by
  refine always_bind fun _ => always_bind fun condition => always_bind fun _ =>
    h.bind fun thenBranch ht => ?_
  have hrest (elseBranch : Option Stmt) (he : ∀ stated ∈ elseBranch, stated.Formed) :
      Always Plain (pure (.ifElse condition thenBranch elseBranch)) := by
    refine always_pure ?_
    cases elseBranch with
    | none => exact ⟨rfl, ht.2⟩
    | some stated => exact ⟨rfl, ht.2, he stated rfl⟩
  exact always_bind fun _ => .ite ((always_some h.formed).bind hrest) (.bind (always_pure nofun) hrest)

lemma always_forInitial :
    Always (fun initial => ∀ first ∈ initial, first.Formed) (forInitial value) :=
  always_bind fun _ => .ite (always_pure nofun) (always_bind fun _ =>
    .ite (always_some always_varDeclaration) (always_some always_expressionStatement.formed))

lemma always_forStatement (h : Always Plain statement) :
    Always Plain (forStatement value statement) := by
  refine always_bind fun _ => always_forInitial.bind fun initial hi => ?_
  refine always_bind fun _ => always_bind fun _ => always_bind fun _ => always_bind fun _ => ?_
  refine h.bind fun body hb => always_pure ?_
  cases initial with
  | none => exact ⟨rfl, hb⟩
  | some first => exact ⟨rfl, hi first rfl, hb⟩

end Statements

section Declarations

variable {body : Parser (List Stmt)}

lemma always_block (h : Always Stmt.FormedAll body) : Always Stmt.FormedAll (block body) :=
  h.bind fun _ hbody => always_bind fun _ => always_pure hbody

lemma always_function (role : FunctionRole) (names : Parser (List Name))
    (h : Always Stmt.FormedAll body) : Always FunctionDecl.Formed (function role names body) := by
  refine always_bind fun name => always_bind fun _ => always_bind fun _ => ?_
  have hrest (params : List Name) : Always FunctionDecl.Formed (do
      let _ ← expect .rightParen "')' after parameters" .function
      let _ ← expect .leftBrace ("'\x7b' before " ++ role.noun ++ " body") .function
      return { name, params, body := ← block body }) :=
    always_bind fun _ => always_bind fun _ => (always_block h).bind fun _ hbody => always_pure hbody
  exact .ite (always_bind hrest) (always_bind hrest)

lemma always_classDeclaration {methods : Parser (List FunctionDecl)}
    (h : Always FunctionDecl.FormedAll methods) : Always Stmt.Formed (classDeclaration methods) :=
  always_bind fun _ => always_bind fun _ => always_bind fun _ => h.bind fun _ hmethods =>
    always_bind fun _ => always_pure hmethods

lemma always_recovering {declaration : Parser Stmt} (h : Always Stmt.Formed declaration) :
    Always (fun first => Stmt.FormedAll first.toList) (recovering declaration) := by
  refine always_bind fun start c first d hyields => ?_
  rcases yields_tryCatch.mp hyields with hread | ⟨stop, e, -, hhandled⟩
  · obtain ⟨stated, hstated, rfl⟩ := yields_map.mp hread
    exact ⟨h c stated d hstated, trivial⟩
  · cases stop with
    | failed fault =>
      simp only [yields_bind, yields_pure] at hhandled
      obtain ⟨_, _, -, _, _, -, rfl, -⟩ := hhandled
      trivial
    | outOfFuel => exact (yields_throw.mp hhandled).elim

end Declarations

/-- With so much fuel each kind of tree is read so. -/
structure Forms (fuel : Nat) : Prop where
  declarations : ∀ inBlock, Always Stmt.FormedAll (declarations fuel inBlock)
  declaration : Always Stmt.Formed (declaration fuel)
  statement : Always Plain (statement fuel)
  methods : Always FunctionDecl.FormedAll (methods fuel)

variable {fuel : Nat}

lemma always_declarations (h : Forms fuel) (inBlock : Bool) :
    Always Stmt.FormedAll (declarations (fuel + 1) inBlock) :=
  always_bind fun _ => .ite (always_pure trivial)
    ((always_recovering h.declaration).bind fun _ hfirst =>
      (h.declarations inBlock).bind fun _ hrest => always_pure (Stmt.formedAll_append hfirst hrest))

lemma always_declaration (h : Forms fuel) : Always Stmt.Formed (declaration (fuel + 1)) := by
  refine always_bind fun _ => .ite (always_classDeclaration h.methods) (always_bind fun _ => .ite ?_
    (always_bind fun _ => .ite always_varDeclaration ?_))
  · exact (always_function .function _ (h.declarations true)).map fun _ hdecl => hdecl
  · exact h.statement.formed

lemma always_statement (h : Forms fuel) : Always Plain (statement (fuel + 1)) := by
  refine always_bind fun token => ?_
  split
  · exact always_expressionStatement
  · split
    · exact always_bind fun _ => always_forStatement h.statement
    · exact always_bind fun _ => always_ifStatement h.statement
    · exact always_bind fun _ => always_printStatement _
    · exact always_bind fun _ => always_returnStatement _
    · exact always_bind fun _ => always_whileStatement h.statement
    · exact always_bind fun _ => (always_block (h.declarations true)).map fun _ hbody => ⟨rfl, hbody⟩
    · exact always_expressionStatement

lemma always_methods (h : Forms fuel) : Always FunctionDecl.FormedAll (methods (fuel + 1)) :=
  always_bind fun _ => .ite (always_pure trivial)
    ((always_function .method _ (h.declarations true)).bind fun _ hmethod =>
      h.methods.bind fun _ hrest => always_pure ⟨hmethod, hrest⟩)

lemma forms (fuel : Nat) : Forms fuel := by
  induction fuel with
  | zero =>
    exact ⟨fun _ _ _ _ h => (yields_throw.mp h).elim, fun _ _ _ h => (yields_throw.mp h).elim,
      fun _ _ _ h => (yields_throw.mp h).elim, fun _ _ _ h => (yields_throw.mp h).elim⟩
  | succ fuel ih =>
    exact ⟨always_declarations ih, always_declaration ih, always_statement ih, always_methods ih⟩

end Parser

lemma Program.parse_formed {tokens : List Token} {n m : Nat} {program : Program}
    (h : Program.parse tokens n = (.ok program, m)) : Stmt.FormedAll program := by
  rw [Program.parse] at h
  rcases hread : outcome (Parser.declarations _ false) _ with ⟨stop | body, final⟩
  · rw [hread] at h
    simp [Parser.verdict] at h
  · have hformed := (Parser.forms _).declarations false _ body final hread
    obtain ⟨rest, nextId, _ | _⟩ := final
    · rw [hread] at h
      obtain rfl : body = program := Except.ok.inj (Prod.mk.inj h).1
      exact hformed
    · rw [hread] at h
      simp [Parser.verdict] at h

end Lox.Direct
