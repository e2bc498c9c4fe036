import Lox.Proofs.Grammar.Soundness.Expression

/-! Statements and declarations that are read without a fault are derived by the grammar. -/

namespace Lox.Parser

variable {c d : Cursor} {fuel : Nat}

/-- A statement is derived from the tokens `ts` passed, and no `else` is left behind it that would
belong to it. -/
def DerivesStatement (n : Nat) (ts : List Token) (s : Stmt) (d : Cursor) : Prop :=
  ∃ dangling, Derives n ts (.statement dangling s) d.nextId ∧
    (dangling = true → ∀ t ∈ d.rest.head?, t.kind ≠ .kwElse)

def SoundStatement (x : Parser Stmt) : Prop :=
  ∀ c s d, Yields x c s d → d.errors = [] →
    c.errors = [] ∧ ∃ ts, c.rest = ts ++ d.rest ∧ DerivesStatement c.nextId ts s d

section Parts

variable {expression : Parser Expr} {statement : Parser Stmt} {declarations : Parser (List Stmt)}

lemma expressionUnless_sound {kind : Token.Kind} (h : Sound expression .expression) :
    Sound (expressionUnless kind expression) .optional := by
  intro c value d hy hd
  simp only [expressionUnless, yields_bind, yields_check] at hy
  obtain ⟨_, _, ⟨_, rfl⟩, hy⟩ := hy
  split at hy
  · simp only [yields_pure] at hy
    obtain ⟨rfl, rfl⟩ := hy
    exact ⟨hd, [], rfl, .absent⟩
  · simp only [yields_bind, yields_pure] at hy
    obtain ⟨e, _, he, rfl, rfl⟩ := hy
    obtain ⟨herr, ts, hts, hder⟩ := h _ _ _ he hd
    exact ⟨herr, ts, hts, .present hder⟩

lemma varDeclaration_sound (h : Sound expression .expression) :
    Sound (varDeclaration expression) .binding := by
  intro c s d hy hd
  simp only [varDeclaration, yields_bind, yields_expectName, yields_accept] at hy
  obtain ⟨_, _, ⟨t, rest, hrest, ht, rfl, rfl⟩, found, c₁, he, hy⟩ := hy
  cases found with
  | true =>
    obtain ⟨equal, rest', hrest', hequal, rfl⟩ := he
    simp only [if_true, yields_bind, yields_map, yields_expect, yields_pure] at hy
    obtain ⟨_, c₂, ⟨value, hv, rfl⟩, semicolon, _, ⟨rest'', hrest'', hsemi, rfl⟩, rfl, rfl⟩ := hy
    obtain ⟨herr, ts, hts, hder⟩ := h _ _ _ hv hd
    exact ⟨herr, t :: equal :: (ts ++ [semicolon]), by simp_all, .initialized ht hequal hder hsemi⟩
  | false =>
    obtain ⟨_, rfl⟩ := he
    simp only [Bool.false_eq_true, if_false, yields_bind, yields_expect, yields_pure] at hy
    obtain ⟨_, _, ⟨rfl, rfl⟩, semicolon, _, ⟨rest', hrest', hsemi, rfl⟩, rfl, rfl⟩ := hy
    exact ⟨hd, [t, semicolon], by simp_all, .uninitialized ht hsemi⟩

lemma expressionStatement_sound (h : Sound expression .expression) :
    Sound (expressionStatement expression) .evaluation := by
  intro c s d hy hd
  simp only [expressionStatement, yields_bind, yields_expect, yields_pure] at hy
  obtain ⟨value, c₁, hv, semicolon, _, ⟨rest, hrest, hsemi, rfl⟩, rfl, rfl⟩ := hy
  obtain ⟨herr, ts, hts, hder⟩ := h _ _ _ hv hd
  exact ⟨herr, ts ++ [semicolon], by simp_all, .evaluate hder hsemi⟩

lemma printStatement_sound {keyword : Token} {s : Stmt} (h : Sound expression .expression)
    (hk : keyword.kind = .kwPrint) (hy : Yields (printStatement keyword expression) c s d)
    (hd : d.errors = []) :
    c.errors = [] ∧ ∃ ts, c.rest = ts ++ d.rest ∧ DerivesStatement c.nextId (keyword :: ts) s d := by
  simp only [printStatement, yields_bind, yields_expect, yields_pure] at hy
  obtain ⟨value, c₁, hv, semicolon, _, ⟨rest, hrest, hsemi, rfl⟩, rfl, rfl⟩ := hy
  obtain ⟨herr, ts, hts, hder⟩ := h _ _ _ hv hd
  exact ⟨herr, ts ++ [semicolon], by simp_all, false, .print hk hder hsemi, by simp⟩

lemma returnStatement_sound {keyword : Token} {s : Stmt} (h : Sound expression .expression)
    (hk : keyword.kind = .kwReturn) (hy : Yields (returnStatement keyword expression) c s d)
    (hd : d.errors = []) :
    c.errors = [] ∧ ∃ ts, c.rest = ts ++ d.rest ∧ DerivesStatement c.nextId (keyword :: ts) s d := by
  simp only [returnStatement, yields_bind, yields_expect, yields_pure] at hy
  obtain ⟨value, c₁, hv, semicolon, _, ⟨rest, hrest, hsemi, rfl⟩, rfl, rfl⟩ := hy
  obtain ⟨herr, ts, hts, hder⟩ := expressionUnless_sound h _ _ _ hv hd
  exact ⟨herr, ts ++ [semicolon], by simp_all, false, .ret hk hder hsemi, by simp⟩

lemma whileStatement_sound {keyword : Token} {s : Stmt} (h : Sound expression .expression)
    (hs : SoundStatement statement) (hk : keyword.kind = .kwWhile)
    (hy : Yields (whileStatement expression statement) c s d) (hd : d.errors = []) :
    c.errors = [] ∧ ∃ ts, c.rest = ts ++ d.rest ∧ DerivesStatement c.nextId (keyword :: ts) s d := by
  simp only [whileStatement, yields_bind, yields_expect, yields_pure] at hy
  obtain ⟨opening, _, ⟨rest, hrest, hopen, rfl⟩, condition, c₁, hc, closing, _,
    ⟨rest', hrest', hclose, rfl⟩, body, _, hb, rfl, rfl⟩ := hy
  obtain ⟨herr, us, hus, dangling, hbody, helse⟩ := hs _ _ _ hb hd
  obtain ⟨herr, ts, hts, hcond⟩ := h _ _ _ hc herr
  exact ⟨herr, opening :: (ts ++ closing :: us), by simp_all, dangling,
    .whileLoop hk hopen hcond hclose hbody, helse⟩

lemma ifStatement_sound {keyword : Token} {s : Stmt} (h : Sound expression .expression)
    (hs : SoundStatement statement) (hk : keyword.kind = .kwIf)
    (hy : Yields (ifStatement expression statement) c s d) (hd : d.errors = []) :
    c.errors = [] ∧ ∃ ts, c.rest = ts ++ d.rest ∧ DerivesStatement c.nextId (keyword :: ts) s d := by
  simp only [ifStatement, yields_bind, yields_expect, yields_accept] at hy
  obtain ⟨opening, _, ⟨rest, hrest, hopen, rfl⟩, condition, c₁, hc, closing, _,
    ⟨rest', hrest', hclose, rfl⟩, branch, c₂, hb, found, c₃, he, hy⟩ := hy
  cases found with
  | true =>
    obtain ⟨other, rest'', hrest'', hother, rfl⟩ := he
    simp only [if_true, yields_bind, yields_map, yields_pure] at hy
    obtain ⟨_, _, ⟨alternative, ha, rfl⟩, rfl, rfl⟩ := hy
    obtain ⟨herr, vs, hvs, dangling, halt, helse⟩ := hs _ _ _ ha hd
    obtain ⟨herr, us, hus, inner, hbranch, hinner⟩ := hs _ _ _ hb herr
    obtain ⟨herr, ts, hts, hcond⟩ := h _ _ _ hc herr
    -- The branch does not dangle, as the `else` behind it would be its own.
    obtain rfl : inner = false := by
      cases inner with
      | false => rfl
      | true => exact absurd hother (hinner rfl other (by simp [hrest'']))
    exact ⟨herr, opening :: (ts ++ closing :: (us ++ other :: vs)), by simp_all, dangling,
      .ifThenElse hk hopen hcond hclose hbranch hother halt, helse⟩
  | false =>
    obtain ⟨hno, rfl⟩ := he
    simp only [Bool.false_eq_true, if_false, yields_bind, yields_pure] at hy
    obtain ⟨_, _, ⟨rfl, rfl⟩, rfl, rfl⟩ := hy
    obtain ⟨herr, us, hus, inner, hbranch, _⟩ := hs _ _ _ hb hd
    obtain ⟨herr, ts, hts, hcond⟩ := h _ _ _ hc herr
    exact ⟨herr, opening :: (ts ++ closing :: us), by simp_all, true,
      .ifThen hk hopen hcond hclose hbranch, fun _ => hno⟩

lemma forInitial_sound (h : Sound expression .expression) :
    Sound (forInitial expression) .clause := by
  intro c initial d hy hd
  simp only [forInitial, yields_bind, yields_accept] at hy
  obtain ⟨empty, c₁, hs, hy⟩ := hy
  cases empty with
  | true =>
    obtain ⟨semicolon, rest, hrest, hsemi, rfl⟩ := hs
    simp only [if_true, yields_pure] at hy
    obtain ⟨rfl, rfl⟩ := hy
    exact ⟨hd, [semicolon], by simp_all, .noClause hsemi⟩
  | false =>
    obtain ⟨_, rfl⟩ := hs
    simp only [Bool.false_eq_true, if_false, yields_bind, yields_accept] at hy
    obtain ⟨declares, c₁, hv, hy⟩ := hy
    cases declares with
    | true =>
      obtain ⟨keyword, rest, hrest, hk, rfl⟩ := hv
      simp only [if_true, yields_map] at hy
      obtain ⟨s, hs, rfl⟩ := hy
      obtain ⟨herr, ts, hts, hder⟩ := varDeclaration_sound h _ _ _ hs hd
      exact ⟨herr, keyword :: ts, by simp_all, .binds hk hder⟩
    | false =>
      obtain ⟨_, rfl⟩ := hv
      simp only [Bool.false_eq_true, if_false, yields_map] at hy
      obtain ⟨s, hs, rfl⟩ := hy
      obtain ⟨herr, ts, hts, hder⟩ := expressionStatement_sound h _ _ _ hs hd
      exact ⟨herr, ts, hts, .evaluates hder⟩

lemma forStatement_sound {keyword : Token} {s : Stmt} (h : Sound expression .expression)
    (hs : SoundStatement statement) (hk : keyword.kind = .kwFor)
    (hy : Yields (forStatement expression statement) c s d) (hd : d.errors = []) :
    c.errors = [] ∧ ∃ ts, c.rest = ts ++ d.rest ∧ DerivesStatement c.nextId (keyword :: ts) s d := by
  simp only [forStatement, yields_bind, yields_expect, yields_pure] at hy
  obtain ⟨opening, _, ⟨rest, hrest, hopen, rfl⟩, initial, c₁, hi, condition, c₂, hc, semicolon, _,
    ⟨rest', hrest', hsemi, rfl⟩, increment, c₃, hn, closing, _, ⟨rest'', hrest'', hclose, rfl⟩,
    body, _, hb, rfl, rfl⟩ := hy
  obtain ⟨herr, ws, hws, dangling, hbody, helse⟩ := hs _ _ _ hb hd
  obtain ⟨herr, vs, hvs, hinc⟩ := expressionUnless_sound h _ _ _ hn herr
  obtain ⟨herr, us, hus, hcond⟩ := expressionUnless_sound h _ _ _ hc herr
  obtain ⟨herr, ts, hts, hinit⟩ := forInitial_sound h _ _ _ hi herr
  exact ⟨herr, opening :: (ts ++ (us ++ semicolon :: (vs ++ closing :: ws))), by simp_all, dangling,
    .forLoop hk hopen hinit hcond hsemi hinc hclose hbody, helse⟩

lemma block_sound (h : Sound declarations .declarations) {body : List Stmt}
    (hy : Yields (block declarations) c body d) (hd : d.errors = []) :
    c.errors = [] ∧ ∃ ts closing, c.rest = ts ++ closing :: d.rest ∧ closing.kind = .rightBrace ∧
      Derives c.nextId ts (.declarations body) d.nextId := by
  simp only [block, yields_bind, yields_expect, yields_pure] at hy
  obtain ⟨_, c₁, hb, closing, _, ⟨rest, hrest, hclose, rfl⟩, rfl, rfl⟩ := hy
  obtain ⟨herr, ts, hts, hder⟩ := h _ _ _ hb hd
  exact ⟨herr, ts, closing, by simp_all, hclose, hder⟩

lemma parameters_sound {fuel count : Nat} {names : List Name}
    (hy : Yields (parameters fuel count) c names d) (hd : d.errors = []) :
    count + names.length ≤ maxArguments ∧ c.errors = [] ∧ c.nextId = d.nextId ∧
      ∃ ts, c.rest = ts ++ d.rest ∧ NameList ts names := by
  induction fuel generalizing count names c with
  | zero => simp [parameters] at hy
  | succ fuel ih =>
    simp only [parameters, yields_bind, yields_expectName, yields_accept] at hy
    obtain ⟨_, c₁, hlim, _, _, ⟨t, rest, hrest, ht, rfl, rfl⟩, more, c₂, hm, hy⟩ := hy
    cases more with
    | true =>
      obtain ⟨comma, rest', hrest', hcomma, rfl⟩ := hm
      simp only [if_true, yields_bind, yields_pure] at hy
      obtain ⟨others, _, ho, rfl, rfl⟩ := hy
      obtain ⟨hlen, herr, hid, ts, hts, hnames⟩ := ih ho
      obtain ⟨rfl, _⟩ := yields_limit hlim herr
      refine ⟨by simp only [List.length_cons]; omega, herr, hid, t :: comma :: ts, by simp_all, ?_⟩
      exact .more ht hcomma hnames
    | false =>
      obtain ⟨_, rfl⟩ := hm
      simp only [Bool.false_eq_true, if_false, yields_pure] at hy
      obtain ⟨rfl, rfl⟩ := hy
      obtain ⟨rfl, hcount⟩ := yields_limit hlim hd
      exact ⟨by simp only [List.length_singleton]; omega, hd, rfl, [t], by simp_all, .last ht⟩

lemma function_sound {role : FunctionRole} (h : Sound declarations .declarations) :
    Sound (function role (parameters fuel 0) declarations) .function := by
  intro c decl d hy hd
  simp only [function, yields_bind, yields_expectName, yields_expect, yields_check] at hy
  obtain ⟨_, _, ⟨t, rest, hrest, ht, rfl, rfl⟩, opening, _, ⟨rest₁, hrest₁, hopen, rfl⟩, empty, _,
    ⟨_, rfl⟩, hy⟩ := hy
  cases empty with
  | true =>
    simp only [if_true, yields_bind, yields_expect, yields_pure] at hy
    obtain ⟨_, _, ⟨rfl, rfl⟩, closing, _, ⟨rest₂, hrest₂, hclose, rfl⟩, brace, _,
      ⟨rest₃, hrest₃, hbrace, rfl⟩, body, _, hb, rfl, rfl⟩ := hy
    obtain ⟨herr, ts, last, hts, hlast, hder⟩ := block_sound h hb hd
    exact ⟨herr, t :: ([opening, closing] ++ brace :: (ts ++ [last])), by simp_all,
      .function ht (.none hopen hclose) hbrace hder hlast⟩
  | false =>
    simp only [Bool.false_eq_true, if_false, yields_bind, yields_expect, yields_pure] at hy
    obtain ⟨names, c₁, hn, closing, _, ⟨rest₂, hrest₂, hclose, rfl⟩, brace, _,
      ⟨rest₃, hrest₃, hbrace, rfl⟩, body, _, hb, rfl, rfl⟩ := hy
    obtain ⟨herr, ts, last, hts, hlast, hder⟩ := block_sound h hb hd
    obtain ⟨hlen, herr, hid, us, hus, hnames⟩ := parameters_sound hn herr
    refine ⟨herr, t :: (opening :: (us ++ [closing]) ++ brace :: (ts ++ [last])), by simp_all, ?_⟩
    have hparams := ParameterList.some hopen hclose hnames (by omega)
    exact .function ht hparams hbrace (by simpa only [← hid] using hder) hlast

lemma classDeclaration_sound {keyword : Token} {methods : Parser (List FunctionDecl)} {s : Stmt}
    (h : Sound methods .methods) (hk : keyword.kind = .kwClass)
    (hy : Yields (classDeclaration methods) c s d) (hd : d.errors = []) :
    c.errors = [] ∧ ∃ ts, c.rest = ts ++ d.rest ∧
      Derives c.nextId (keyword :: ts) (.declaration s) d.nextId := by
  simp only [classDeclaration, superclass, yields_bind, yields_expectName, yields_accept] at hy
  obtain ⟨_, _, ⟨t, rest, hrest, ht, rfl, rfl⟩, parent, c₁, ⟨found, c₂, hl, hp⟩, hy⟩ := hy
  simp only [yields_expect, yields_pure] at hy
  obtain ⟨opening, _, ⟨rest₁, hrest₁, hopen, rfl⟩, decls, c₃, hm, closing, _,
    ⟨rest₂, hrest₂, hclose, rfl⟩, rfl, rfl⟩ := hy
  obtain ⟨herr, ts, hts, hder⟩ := h _ _ _ hm hd
  cases found with
  | true =>
    obtain ⟨less, rest₃, hrest₃, hless, rfl⟩ := hl
    simp only [if_true, yields_bind, yields_expectName, yields_newReference, yields_pure] at hp
    obtain ⟨_, _, ⟨u, rest₄, hrest₄, hu, rfl, rfl⟩, _, _, ⟨rfl, rfl⟩, rfl, rfl⟩ := hp
    exact ⟨herr, t :: less :: u :: opening :: (ts ++ [closing]), by simp_all,
      .subclassDecl hk ht hless hu hopen hder hclose⟩
  | false =>
    obtain ⟨_, rfl⟩ := hl
    simp only [Bool.false_eq_true, if_false, yields_pure] at hp
    obtain ⟨rfl, rfl⟩ := hp
    exact ⟨herr, t :: opening :: (ts ++ [closing]), by simp_all,
      .classDecl hk ht hopen hder hclose⟩

lemma yields_recovering {declaration : Parser Stmt} {s : Option Stmt}
    (hy : Yields (recovering declaration) c s d) (hd : d.errors = []) :
    ∃ stated, s = some stated ∧ Yields declaration c stated d := by
  simp only [recovering, yields_bind, yields_get, yields_tryCatch] at hy
  obtain ⟨_, _, ⟨rfl, rfl⟩, hy | ⟨stop, c₁, _, hy⟩⟩ := hy
  · simp only [yields_map] at hy
    obtain ⟨stated, hs, rfl⟩ := hy
    exact ⟨stated, rfl, hs⟩
  · cases stop with
    | failed e =>
      simp only [yields_bind, yields_report, yields_modify, yields_pure] at hy
      obtain ⟨_, _, rfl, _, _, rfl, _, rfl⟩ := hy
      simp at hd
    | outOfFuel => simp at hy

end Parts

structure StatementsSound (fuel : Nat) : Prop where
  declarations : ∀ inBlock, Sound (Parser.declarations fuel inBlock) .declarations
  declaration : Sound (Parser.declaration fuel) .declaration
  statement : SoundStatement (Parser.statement fuel)
  methods : Sound (Parser.methods fuel) .methods

lemma declarations_sound (h : StatementsSound fuel) (inBlock : Bool) :
    Sound (declarations (fuel + 1) inBlock) .declarations := by
  intro c body d hy hd
  simp only [declarations, yields_bind, yields_atClose] at hy
  obtain ⟨closed, _, ⟨_, rfl⟩, hy⟩ := hy
  cases closed with
  | true =>
    simp only [if_true, yields_pure] at hy
    obtain ⟨rfl, rfl⟩ := hy
    exact ⟨hd, [], rfl, .noDeclarations⟩
  | false =>
    simp only [Bool.false_eq_true, if_false, yields_bind, yields_pure] at hy
    obtain ⟨first, c₁, hf, others, _, ho, rfl, rfl⟩ := hy
    obtain ⟨herr, us, hus, hothers⟩ := h.declarations _ _ _ _ ho hd
    obtain ⟨stated, rfl, hs⟩ := yields_recovering hf herr
    obtain ⟨herr, ts, hts, hder⟩ := h.declaration _ _ _ hs herr
    exact ⟨herr, ts ++ us, by simp [hts, hus], .declared hder hothers⟩

lemma declaration_sound (h : StatementsSound fuel) :
    Sound (declaration (fuel + 1)) .declaration := by
  intro c s d hy hd
  simp only [declaration, yields_bind, yields_accept] at hy
  obtain ⟨isClass, c₁, hk, hy⟩ := hy
  cases isClass with
  | true =>
    obtain ⟨keyword, rest, hrest, hk, rfl⟩ := hk
    simp only [if_true] at hy
    obtain ⟨herr, ts, hts, hder⟩ := classDeclaration_sound h.methods hk hy hd
    exact ⟨herr, keyword :: ts, by simp_all, hder⟩
  | false =>
  obtain ⟨_, rfl⟩ := hk
  simp only [Bool.false_eq_true, if_false, yields_bind, yields_accept] at hy
  obtain ⟨isFunction, c₁, hk, hy⟩ := hy
  cases isFunction with
  | true =>
    obtain ⟨keyword, rest, hrest, hk, rfl⟩ := hk
    simp only [if_true, yields_map] at hy
    obtain ⟨decl, hf, rfl⟩ := hy
    obtain ⟨herr, ts, hts, hder⟩ := function_sound (h.declarations true) _ _ _ hf hd
    exact ⟨herr, keyword :: ts, by simp_all, .functionDecl hk hder⟩
  | false =>
  obtain ⟨_, rfl⟩ := hk
  simp only [Bool.false_eq_true, if_false, yields_bind, yields_accept] at hy
  obtain ⟨isVariable, c₁, hk, hy⟩ := hy
  cases isVariable with
  | true =>
    obtain ⟨keyword, rest, hrest, hk, rfl⟩ := hk
    simp only [if_true] at hy
    obtain ⟨herr, ts, hts, hder⟩ :=
      varDeclaration_sound (expressionsSound fuel).expression _ _ _ hy hd
    exact ⟨herr, keyword :: ts, by simp_all, .varDecl hk hder⟩
  | false =>
    obtain ⟨_, rfl⟩ := hk
    simp only [Bool.false_eq_true, if_false] at hy
    obtain ⟨herr, ts, hts, _, hder, _⟩ := h.statement _ _ _ hy hd
    exact ⟨herr, ts, hts, .statement hder⟩

lemma statement_sound (h : StatementsSound fuel) : SoundStatement (statement (fuel + 1)) := by
  intro c s d hy hd
  have he := (expressionsSound fuel).expression
  simp only [statement, yields_bind, yields_peek] at hy
  obtain ⟨next, _, ⟨rfl, rfl⟩, hy⟩ := hy
  rcases hr : c.rest with _ | ⟨t, rest⟩
  · simp only [hr, List.head?_nil] at hy
    obtain ⟨herr, ts, hts, hder⟩ := expressionStatement_sound he _ _ _ hy hd
    exact ⟨herr, ts, by simp_all, false, .evaluation hder, by simp⟩
  simp only [hr, List.head?_cons] at hy
  split at hy
  case h_1 hk =>
    simp only [yields_bind, yields_skip, hr, List.tail_cons] at hy
    obtain ⟨_, _, rfl, hy⟩ := hy
    obtain ⟨herr, ts, hts, hder⟩ := forStatement_sound he h.statement hk hy hd
    exact ⟨herr, t :: ts, by simp_all, hder⟩
  case h_2 hk =>
    simp only [yields_bind, yields_skip, hr, List.tail_cons] at hy
    obtain ⟨_, _, rfl, hy⟩ := hy
    obtain ⟨herr, ts, hts, hder⟩ := ifStatement_sound he h.statement hk hy hd
    exact ⟨herr, t :: ts, by simp_all, hder⟩
  case h_3 hk =>
    simp only [yields_bind, yields_skip, hr, List.tail_cons] at hy
    obtain ⟨_, _, rfl, hy⟩ := hy
    obtain ⟨herr, ts, hts, hder⟩ := printStatement_sound he hk hy hd
    exact ⟨herr, t :: ts, by simp_all, hder⟩
  case h_4 hk =>
    simp only [yields_bind, yields_skip, hr, List.tail_cons] at hy
    obtain ⟨_, _, rfl, hy⟩ := hy
    obtain ⟨herr, ts, hts, hder⟩ := returnStatement_sound he hk hy hd
    exact ⟨herr, t :: ts, by simp_all, hder⟩
  case h_5 hk =>
    simp only [yields_bind, yields_skip, hr, List.tail_cons] at hy
    obtain ⟨_, _, rfl, hy⟩ := hy
    obtain ⟨herr, ts, hts, hder⟩ := whileStatement_sound he h.statement hk hy hd
    exact ⟨herr, t :: ts, by simp_all, hder⟩
  case h_6 hk =>
    simp only [yields_bind, yields_skip, yields_map, hr, List.tail_cons] at hy
    obtain ⟨_, _, rfl, body, hb, rfl⟩ := hy
    obtain ⟨herr, ts, closing, hts, hclose, hder⟩ := block_sound (h.declarations true) hb hd
    exact ⟨herr, t :: (ts ++ [closing]), by simp_all, false, .block hk hder hclose, by simp⟩
  case h_7 =>
    obtain ⟨herr, ts, hts, hder⟩ := expressionStatement_sound he _ _ _ hy hd
    exact ⟨herr, ts, by simp_all, false, .evaluation hder, by simp⟩

lemma methods_sound (h : StatementsSound fuel) : Sound (methods (fuel + 1)) .methods := by
  intro c decls d hy hd
  simp only [methods, yields_bind, yields_atClose] at hy
  obtain ⟨closed, _, ⟨_, rfl⟩, hy⟩ := hy
  cases closed with
  | true =>
    simp only [if_true, yields_pure] at hy
    obtain ⟨rfl, rfl⟩ := hy
    exact ⟨hd, [], rfl, .noMethods⟩
  | false =>
    simp only [Bool.false_eq_true, if_false, yields_bind, yields_pure] at hy
    obtain ⟨first, c₁, hf, others, _, ho, rfl, rfl⟩ := hy
    obtain ⟨herr, us, hus, hothers⟩ := h.methods _ _ _ ho hd
    obtain ⟨herr, ts, hts, hder⟩ := function_sound (h.declarations true) _ _ _ hf herr
    exact ⟨herr, ts ++ us, by simp [hts, hus], .method hder hothers⟩

lemma statementsSound (fuel : Nat) : StatementsSound fuel := by
  induction fuel with
  | zero =>
    constructor <;> intros
    all_goals
      intro c e d hy
      simp [declarations, declaration, statement, methods] at hy
  | succ fuel ih =>
    exact
      { declarations := declarations_sound ih
        declaration := declaration_sound ih
        statement := statement_sound ih
        methods := methods_sound ih }

lemma closes_of_declarations {fuel : Nat} {inBlock : Bool} {body : List Stmt}
    (hy : Yields (declarations fuel inBlock) c body d) : closes inBlock d.rest = true := by
  induction fuel generalizing c body with
  | zero => simp [declarations] at hy
  | succ fuel ih =>
    simp only [declarations, yields_bind, yields_atClose] at hy
    obtain ⟨closed, _, ⟨hclosed, rfl⟩, hy⟩ := hy
    cases closed with
    | true =>
      simp only [if_true, yields_pure] at hy
      obtain ⟨_, rfl⟩ := hy
      exact hclosed
    | false =>
      simp only [Bool.false_eq_true, if_false, yields_bind, yields_pure] at hy
      obtain ⟨_, _, _, _, _, ho, _, rfl⟩ := hy
      exact ih ho

lemma parse_eq_ok_iff {tokens : List Token} {n m : Nat} {program : Program} :
    Program.parse tokens n = (.ok program, m) ↔
      ∃ d, Yields (declarations (ample tokens.length) false) (startOf tokens n) program d ∧
        d.errors = [] ∧ d.nextId = m := by
  rw [parse_eq_verdict]
  unfold Yields verdict
  rcases outcome (declarations (ample tokens.length) false) (startOf tokens n) with ⟨_ | body, final⟩
  · simp
  · rcases he : final.errors with _ | ⟨e, errors⟩
    · simp only [Prod.mk.injEq, Except.ok.injEq]
      grind
    · simp only [Prod.mk.injEq, reduceCtorEq, false_and, Except.ok.injEq, false_iff]
      rintro ⟨d, ⟨_, rfl⟩, hd, _⟩
      simp [he] at hd

lemma takeWhile_of_closes {ts rest : List Token} (hts : Unended ts)
    (hrest : closes false rest = true) : (ts ++ rest).takeWhile (·.kind != .eof) = ts := by
  rw [List.takeWhile_append_of_pos (by simpa [Unended] using hts)]
  rcases rest with _ | ⟨t, rest⟩
  · simp
  · have ht : t.kind = .eof := by simpa [closes] using hrest
    simp [ht]

lemma parse_sound {tokens : List Token} {n m : Nat} {program : Program}
    (h : Program.parse tokens n = (.ok program, m)) :
    Derives n (tokens.takeWhile (·.kind != .eof)) (.declarations program) m := by
  obtain ⟨d, hy, hd, rfl⟩ := parse_eq_ok_iff.mp h
  obtain ⟨_, ts, hts, hder⟩ := (statementsSound _).declarations _ _ _ _ hy hd
  have htokens : tokens = ts ++ d.rest := hts
  rw [htokens, takeWhile_of_closes hder.unended (closes_of_declarations hy)]
  exact hder

end Lox.Parser
