import Lox.Proofs.Grammar.Soundness.Statement
import Lox.Proofs.Token.Keywords
import Lox.Proofs.Token.Spelling

/-! The words that a tree has of the text it was read from: its names, some of its keywords, and its
literals. Each is that of a token, and can be told from what is written around it. -/

namespace Lox

inductive Word
  | name (text : String)
  | keyword (kind : Token.Kind) (text : String)
  | number (value : Float)
  | quoted (value : String)

def Literal.words : Literal → List Word
  | number value => [.number value]
  | text value => [.quoted value]
  | boolean _ | nil => []

mutual

def Expr.words : Expr → List Word
  | .literal value => value.words
  | .grouping inner | .unary _ _ inner => inner.words
  | .binary _ _ left right | .logical _ _ left right => left.words ++ right.words
  | .read target => [.name target.name.text]
  | .assign target value => .name target.name.text :: value.words
  | .call callee arguments _ => callee.words ++ Expr.wordsAll arguments
  | .get object property => object.words ++ [.name property.text]
  | .set object property value => object.words ++ .name property.text :: value.words
  | .this keyword => [.keyword .kwThis keyword.name.text]
  | .super keyword method => [.keyword .kwSuper keyword.name.text, .name method.text]

def Expr.wordsAll : List Expr → List Word
  | [] => []
  | value :: rest => value.words ++ Expr.wordsAll rest

end

def Expr.wordsOption (value : Option Expr) : List Word :=
  value.elim [] Expr.words

mutual

def Stmt.words : Stmt → List Word
  | .expression value | .print _ value => value.words
  | .varDecl name initial => .name name.text :: Expr.wordsOption initial
  | .functionDecl decl => decl.words
  | .classDecl decl => decl.words
  | .block body => Stmt.wordsAll body
  | .ifElse condition thenBranch none => condition.words ++ thenBranch.words
  | .ifElse condition thenBranch (some elseBranch) =>
    condition.words ++ (thenBranch.words ++ elseBranch.words)
  | .whileLoop condition body => condition.words ++ body.words
  | .ret keyword value => .keyword .kwReturn keyword.text :: Expr.wordsOption value

def Stmt.wordsAll : List Stmt → List Word
  | [] => []
  | stated :: rest => stated.words ++ Stmt.wordsAll rest

def FunctionDecl.words : FunctionDecl → List Word
  | ⟨name, params, body⟩ =>
    .name name.text :: (params.map fun param => .name param.text) ++ Stmt.wordsAll body

def FunctionDecl.wordsAll : List FunctionDecl → List Word
  | [] => []
  | decl :: rest => decl.words ++ FunctionDecl.wordsAll rest

def ClassDecl.words : ClassDecl → List Word
  | ⟨name, superclass, methods⟩ =>
    .name name.text :: (superclass.elim [] fun target => [.name target.name.text]) ++
      FunctionDecl.wordsAll methods

end

def Phrase.words : Phrase → List Word
  | expression value | operators _ value | operand _ value | unary value | call value
  | primary value => value.words
  | arguments values => Expr.wordsAll values
  | optional value => Expr.wordsOption value
  | binding declared | declaration declared => declared.words
  | evaluation stated | statement _ stated => stated.words
  | clause initial => initial.elim [] Stmt.words
  | declarations body => Stmt.wordsAll body
  | function decl => decl.words
  | methods decls => FunctionDecl.wordsAll decls

/-- What a tree can have of a token. -/
def Token.words (t : Token) : List Word :=
  match t.kind with
  | .identifier => [.name t.lexeme]
  | .number | .string => (t.literal.getD .nil).words
  | .kwThis | .kwSuper | .kwReturn => [.keyword t.kind t.lexeme]
  | _ => []

lemma Connective.words_join (connective : Connective) (line : Nat) (left right : Expr) :
    (connective.join line left right).words = left.words ++ right.words := by
  cases connective <;> rfl

lemma Stmt.words_forLoop {initial : Option Stmt} {condition increment : Option Expr} {body : Stmt}
    {word : Word} (h : word ∈ (forLoop initial condition increment body).words) :
    word ∈ initial.elim [] Stmt.words ∨ word ∈ Expr.wordsOption condition ∨
      word ∈ Expr.wordsOption increment ∨ word ∈ body.words := by
  cases initial <;> cases condition <;> cases increment <;>
    simp_all [forLoop, Stmt.words, Stmt.wordsAll, Expr.words, Expr.wordsOption, Literal.words] <;>
    tauto

lemma Token.words_of_identifier {t : Token} (h : t.kind = .identifier) :
    t.words = [.name t.name.text] := by
  simp [words, h, Token.name]

lemma Token.words_of_keyword {t : Token}
    (h : t.kind = .kwThis ∨ t.kind = .kwSuper ∨ t.kind = .kwReturn) :
    t.words = [.keyword t.kind t.name.text] := by
  rcases h with h | h | h <;> simp [words, h, Token.name]

lemma NameList.words {ts : List Token} {names : List Name} (h : NameList ts names) :
    ∀ name ∈ names, Word.name name.text ∈ ts.flatMap Token.words := by
  induction h with
  | last hk => simp [Token.words_of_identifier hk]
  | more hk _ _ ih =>
    simp only [List.forall_mem_cons, List.flatMap_cons, Token.words_of_identifier hk]
    exact ⟨by simp, fun name hname => by simp [ih name hname]⟩

lemma ParameterList.words {ts : List Token} {names : List Name} (h : ParameterList ts names) :
    ∀ name ∈ names, Word.name name.text ∈ ts.flatMap Token.words := by
  cases h with
  | none => simp
  | some _ _ hn _ =>
    intro name hname
    simp [hn.words name hname]

/-- The words of a tree are those of the tokens it is derived from. -/
lemma Derives.words_subset {n m : Nat} {ts : List Token} {p : Phrase} (h : Derives n ts p m) :
    ∀ word ∈ p.words, word ∈ ts.flatMap Token.words := by
  induction h <;> simp only [Phrase.words, List.flatMap_append, List.flatMap_cons, List.flatMap_nil,
    List.mem_append, List.not_mem_nil, or_false] at *
  case literal hk =>
    intro word hword
    rw [Expr.words] at hword
    rcases hk with hk | hk <;> simpa [Token.words, hk] using hword
  case this hk => simp [Expr.words, Token.words_of_keyword (.inl hk), hk]
  case super hk _ hmethod =>
    simp [Expr.words, Token.words_of_identifier hmethod, Token.words_of_keyword (.inr (.inl hk)), hk]
  case ret hk _ _ ih =>
    simp only [Stmt.words, List.forall_mem_cons, Token.words_of_keyword (.inr (.inr hk)), hk]
    exact ⟨by simp, fun word hword => .inr (.inl (ih word hword))⟩
  case forLoop ihi ihc ihn ihb =>
    intro word hword
    rcases Stmt.words_forLoop hword with h | h | h | h
    · simp [ihi word h]
    · simp [ihc word h]
    · simp [ihn word h]
    · simp [ihb word h]
  case function hname hparams _ _ _ ih =>
    simp only [FunctionDecl.words, Token.words_of_identifier hname]
    have hparams := hparams.words
    grind
  all_goals grind [Expr.words, Expr.wordsAll, Expr.wordsOption, Stmt.words, Stmt.wordsAll,
    FunctionDecl.wordsAll, ClassDecl.words, Literal.words, Connective.words_join,
    Token.words_of_identifier]

/-- An identifier that is no keyword. -/
structure IsName (text : String) : Prop where
  chars : ∃ c rest, text.toList = c :: rest ∧ Lexeme.beginsIdentifier c = true ∧
    ∀ d ∈ rest, Lexeme.continuesIdentifier d = true
  notKeyword : ∀ entry ∈ Token.Kind.keywords, text ≠ entry.1

/-- A word that can be told from what is written around it. -/
def Word.Legible : Word → Prop
  | name text => IsName text
  | keyword kind text => (text, kind) ∈ Token.Kind.keywords
  | number value => value.isFinite = true
  | quoted value => '"' ∉ value.toList

lemma Token.words_of_fixed {t : Token} {entry : String × Token.Kind}
    (he : entry ∈ Token.Kind.symbols ++ Token.Kind.keywords) (hk : t.kind = entry.2)
    (hlexeme : t.lexeme = entry.1) : ∀ word ∈ t.words, word.Legible := by
  have hfixed : ∀ entry ∈ Token.Kind.symbols ++ Token.Kind.keywords,
      entry.2 ≠ .identifier ∧ entry.2 ≠ .number ∧ entry.2 ≠ .string ∧
        (entry.2 = .kwThis ∨ entry.2 = .kwSuper ∨ entry.2 = .kwReturn →
          entry ∈ Token.Kind.keywords) := by decide
  obtain ⟨hidentifier, hnumber, hstring, hkeyword⟩ := hfixed entry he
  unfold words
  split
  case h_1 hk' => exact absurd (hk.symm.trans hk') hidentifier
  case h_2 hk' => exact absurd (hk.symm.trans hk') hnumber
  case h_3 hk' => exact absurd (hk.symm.trans hk') hstring
  case h_7 => nofun
  all_goals
    rename_i hk'
    refine List.forall_mem_singleton.mpr ?_
    rw [Word.Legible, hlexeme, hk]
    exact hkeyword (by simp [← hk, hk'])

lemma Token.legible_of_spells {t : Token} (h : Lexeme.Spells t.kind t.literal t.lexeme.toList)
    {word : Word} (hword : word ∈ t.words) (hfinite : ∀ x, word = .number x → x.isFinite = true) :
    word.Legible := by
  obtain ⟨kind, lexeme, literal, line⟩ := t
  generalize hchars : lexeme.toList = chars at h
  cases h with
  | fixed he => exact words_of_fixed he rfl (String.toList_inj.mp hchars) word hword
  | identifier hc hrest hkeyword =>
    obtain rfl : word = .name lexeme := List.mem_singleton.mp hword
    refine ⟨⟨_, _, hchars, hc, hrest⟩, fun entry he heq => hkeyword entry he ?_⟩
    rw [← hchars, heq]
  | @quoted body hbody =>
    obtain rfl : word = .quoted (String.ofList body) := List.mem_singleton.mp hword
    simpa [Word.Legible] using hbody
  | whole =>
    obtain rfl := List.mem_singleton.mp hword
    exact hfinite _ rfl
  | decimal =>
    obtain rfl := List.mem_singleton.mp hword
    exact hfinite _ rfl

lemma Token.legible_of_scan {source : String} {tokens : List Token}
    (h : Token.scan source = .ok tokens) {t : Token} (ht : t ∈ tokens) {word : Word}
    (hword : word ∈ t.words) (hfinite : ∀ x, word = .number x → x.isFinite = true) :
    word.Legible := by
  by_cases hk : t.kind = .eof
  · simp [words, hk] at hword
  · obtain ⟨text, n, hlongest, hlexeme⟩ := exists_longest h ht hk
    have hspells := Lexeme.spells_of_longest hlongest
    rw [← hlexeme] at hspells
    exact legible_of_spells hspells hword hfinite

/-- The number literals of a program are finite. -/
def Program.Finite (program : Program) : Prop :=
  ∀ x, Word.number x ∈ Stmt.wordsAll program → x.isFinite = true

/-- What is written of a program can be told apart, if its numbers are finite. -/
lemma Program.legible_of_parse {source : String} {tokens : List Token} {n m : Nat}
    {program : Program} (hscan : Token.scan source = .ok tokens)
    (hparse : Program.parse tokens n = (.ok program, m))
    (hfinite : program.Finite) : ∀ word ∈ Stmt.wordsAll program, word.Legible := by
  intro word hword
  obtain ⟨t, ht, ht'⟩ := List.mem_flatMap.mp ((Parser.parse_sound hparse).words_subset word hword)
  refine Token.legible_of_scan hscan ((List.takeWhile_sublist _).subset ht) ht' ?_
  rintro x rfl
  exact hfinite x hword

end Lox
