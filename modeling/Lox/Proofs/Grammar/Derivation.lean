import Lox.Grammar.Program
import Mathlib.Tactic.Common

/-! The grammar of programs, as derivations of trees from tokens. A derivation takes identities for
its references in the order of the tokens: from the first one given up to the next one left. -/

namespace Lox

/-- What is derived. A statement dangles if an `else` behind it would belong to an `if` inside. -/
inductive Phrase
  | expression (value : Expr)
  | operators (tier : Tier) (value : Expr)
  | operand (tier : Tier) (value : Expr)
  | unary (value : Expr)
  | call (value : Expr)
  | primary (value : Expr)
  | arguments (values : List Expr)
  | optional (value : Option Expr)
  | binding (declared : Stmt)
  | evaluation (stated : Stmt)
  | clause (initial : Option Stmt)
  | statement (dangling : Bool) (stated : Stmt)
  | declaration (declared : Stmt)
  | declarations (body : List Stmt)
  | function (decl : FunctionDecl)
  | methods (decls : List FunctionDecl)

/-- Names with commas between. -/
inductive NameList : List Token → List Name → Prop
  | last {t} : t.kind = .identifier → NameList [t] [t.name]
  | more {t comma ts names} : t.kind = .identifier → comma.kind = .comma → NameList ts names →
      NameList (t :: comma :: ts) (t.name :: names)

/-- Names between parentheses, at most as many as are admitted. -/
inductive ParameterList : List Token → List Name → Prop
  | none {opening closing} : opening.kind = .leftParen → closing.kind = .rightParen →
      ParameterList [opening, closing] []
  | some {opening closing ts names} : opening.kind = .leftParen → closing.kind = .rightParen →
      NameList ts names → names.length ≤ maxArguments →
      ParameterList (opening :: (ts ++ [closing])) names

inductive Derives : Nat → List Token → Phrase → Nat → Prop
  -- Expressions, from the loosest to the tightest.
  | assign {n m target equal ts value} : target.kind = .identifier → equal.kind = .equal →
      Derives (n + 1) ts (.expression value) m →
      Derives n (target :: equal :: ts) (.expression (.assign ⟨n, target.name⟩ value)) m
  | set {n k m dot property equal ts us object value} : Derives n ts (.call object) k →
      dot.kind = .dot → property.kind = .identifier → equal.kind = .equal →
      Derives k us (.expression value) m →
      Derives n (ts ++ dot :: property :: equal :: us)
        (.expression (.set object property.name value)) m
  | loosest {n m ts value} : Derives n ts (.operators .disjunction value) m →
      Derives n ts (.expression value) m
  | first {n m ts tier value} : Derives n ts (.operand tier value) m →
      Derives n ts (.operators tier value) m
  | join {n k m op ts us tier connective left right} : Derives n ts (.operators tier left) k →
      tier.connective? op.kind = some connective → Derives k us (.operand tier right) m →
      Derives n (ts ++ op :: us) (.operators tier (connective.join op.line left right)) m
  | tighter {n m ts tier inner value} : tier.tighter? = some inner →
      Derives n ts (.operators inner value) m → Derives n ts (.operand tier value) m
  | tightest {n m ts tier value} : tier.tighter? = none → Derives n ts (.unary value) m →
      Derives n ts (.operand tier value) m
  | prefixed {n m op ts kind value} : UnaryOp.ofKind? op.kind = some kind →
      Derives n ts (.unary value) m → Derives n (op :: ts) (.unary (.unary kind op.line value)) m
  | postfixed {n m ts value} : Derives n ts (.call value) m → Derives n ts (.unary value) m
  | alone {n m ts value} : Derives n ts (.primary value) m → Derives n ts (.call value) m
  | invoke {n m opening closing ts callee} : Derives n ts (.call callee) m →
      opening.kind = .leftParen → closing.kind = .rightParen →
      Derives n (ts ++ [opening, closing]) (.call (.call callee [] closing.line)) m
  | invokeWith {n k m opening closing ts us callee given} : Derives n ts (.call callee) k →
      opening.kind = .leftParen → Derives k us (.arguments given) m →
      given.length ≤ maxArguments → closing.kind = .rightParen →
      Derives n (ts ++ opening :: (us ++ [closing])) (.call (.call callee given closing.line)) m
  | get {n m dot property ts object} : Derives n ts (.call object) m → dot.kind = .dot →
      property.kind = .identifier →
      Derives n (ts ++ [dot, property]) (.call (.get object property.name)) m
  | lastArgument {n m ts value} : Derives n ts (.expression value) m →
      Derives n ts (.arguments [value]) m
  | argument {n k m comma ts us value values} : Derives n ts (.expression value) k →
      comma.kind = .comma → Derives k us (.arguments values) m →
      Derives n (ts ++ comma :: us) (.arguments (value :: values)) m
  | kwFalse {n t} : t.kind = .kwFalse → Derives n [t] (.primary (.literal (.boolean false))) n
  | kwTrue {n t} : t.kind = .kwTrue → Derives n [t] (.primary (.literal (.boolean true))) n
  | kwNil {n t} : t.kind = .kwNil → Derives n [t] (.primary (.literal .nil)) n
  | literal {n t} : t.kind = .number ∨ t.kind = .string →
      Derives n [t] (.primary (.literal (t.literal.getD .nil))) n
  | name {n t} : t.kind = .identifier → Derives n [t] (.primary (.read ⟨n, t.name⟩)) (n + 1)
  | this {n t} : t.kind = .kwThis → Derives n [t] (.primary (.this ⟨n, t.name⟩)) (n + 1)
  | super {n t dot method} : t.kind = .kwSuper → dot.kind = .dot → method.kind = .identifier →
      Derives n [t, dot, method] (.primary (.super ⟨n, t.name⟩ method.name)) (n + 1)
  | grouping {n m opening closing ts value} : opening.kind = .leftParen →
      Derives n ts (.expression value) m → closing.kind = .rightParen →
      Derives n (opening :: (ts ++ [closing])) (.primary (.grouping value)) m
  | absent {n} : Derives n [] (.optional none) n
  | present {n m ts value} : Derives n ts (.expression value) m →
      Derives n ts (.optional (some value)) m
  -- Statements.
  | evaluate {n m semicolon ts value} : Derives n ts (.expression value) m →
      semicolon.kind = .semicolon → Derives n (ts ++ [semicolon]) (.evaluation (.expression value)) m
  | evaluation {n m ts stated} : Derives n ts (.evaluation stated) m →
      Derives n ts (.statement false stated) m
  | print {n m keyword semicolon ts value} : keyword.kind = .kwPrint →
      Derives n ts (.expression value) m → semicolon.kind = .semicolon →
      Derives n (keyword :: (ts ++ [semicolon])) (.statement false (.print keyword.line value)) m
  | ret {n m keyword semicolon ts value} : keyword.kind = .kwReturn →
      Derives n ts (.optional value) m → semicolon.kind = .semicolon →
      Derives n (keyword :: (ts ++ [semicolon])) (.statement false (.ret keyword.name value)) m
  | block {n m opening closing ts body} : opening.kind = .leftBrace →
      Derives n ts (.declarations body) m → closing.kind = .rightBrace →
      Derives n (opening :: (ts ++ [closing])) (.statement false (.block body)) m
  | ifThen {n k m keyword opening closing ts us dangling condition branch} :
      keyword.kind = .kwIf → opening.kind = .leftParen → Derives n ts (.expression condition) k →
      closing.kind = .rightParen → Derives k us (.statement dangling branch) m →
      Derives n (keyword :: opening :: (ts ++ closing :: us))
        (.statement true (.ifElse condition branch none)) m
  | ifThenElse {n k l m keyword opening closing other ts us vs dangling condition branch
        otherwise} :
      keyword.kind = .kwIf → opening.kind = .leftParen → Derives n ts (.expression condition) k →
      closing.kind = .rightParen → Derives k us (.statement false branch) l →
      other.kind = .kwElse → Derives l vs (.statement dangling otherwise) m →
      Derives n (keyword :: opening :: (ts ++ closing :: (us ++ other :: vs)))
        (.statement dangling (.ifElse condition branch (some otherwise))) m
  | whileLoop {n k m keyword opening closing ts us dangling condition body} :
      keyword.kind = .kwWhile → opening.kind = .leftParen →
      Derives n ts (.expression condition) k → closing.kind = .rightParen →
      Derives k us (.statement dangling body) m →
      Derives n (keyword :: opening :: (ts ++ closing :: us))
        (.statement dangling (.whileLoop condition body)) m
  | forLoop {n k l o m keyword opening semicolon closing ts us vs ws dangling initial condition
        increment body} :
      keyword.kind = .kwFor → opening.kind = .leftParen → Derives n ts (.clause initial) k →
      Derives k us (.optional condition) l → semicolon.kind = .semicolon →
      Derives l vs (.optional increment) o → closing.kind = .rightParen →
      Derives o ws (.statement dangling body) m →
      Derives n (keyword :: opening :: (ts ++ (us ++ semicolon :: (vs ++ closing :: ws))))
        (.statement dangling (.forLoop initial condition increment body)) m
  | noClause {n semicolon} : semicolon.kind = .semicolon → Derives n [semicolon] (.clause none) n
  | binds {n m keyword ts declared} : keyword.kind = .kwVar → Derives n ts (.binding declared) m →
      Derives n (keyword :: ts) (.clause (some declared)) m
  | evaluates {n m ts stated} : Derives n ts (.evaluation stated) m →
      Derives n ts (.clause (some stated)) m
  -- Declarations.
  | uninitialized {n t semicolon} : t.kind = .identifier → semicolon.kind = .semicolon →
      Derives n [t, semicolon] (.binding (.varDecl t.name none)) n
  | initialized {n m t equal semicolon ts value} : t.kind = .identifier → equal.kind = .equal →
      Derives n ts (.expression value) m → semicolon.kind = .semicolon →
      Derives n (t :: equal :: (ts ++ [semicolon])) (.binding (.varDecl t.name (some value))) m
  | statement {n m ts dangling stated} : Derives n ts (.statement dangling stated) m →
      Derives n ts (.declaration stated) m
  | varDecl {n m keyword ts declared} : keyword.kind = .kwVar → Derives n ts (.binding declared) m →
      Derives n (keyword :: ts) (.declaration declared) m
  | functionDecl {n m keyword ts decl} : keyword.kind = .kwFun → Derives n ts (.function decl) m →
      Derives n (keyword :: ts) (.declaration (.functionDecl decl)) m
  | classDecl {n m keyword t opening closing ts methods} : keyword.kind = .kwClass →
      t.kind = .identifier → opening.kind = .leftBrace → Derives n ts (.methods methods) m →
      closing.kind = .rightBrace →
      Derives n (keyword :: t :: opening :: (ts ++ [closing]))
        (.declaration (.classDecl ⟨t.name, none, methods⟩)) m
  | subclassDecl {n m keyword t less parent opening closing ts methods} : keyword.kind = .kwClass →
      t.kind = .identifier → less.kind = .less → parent.kind = .identifier →
      opening.kind = .leftBrace → Derives (n + 1) ts (.methods methods) m →
      closing.kind = .rightBrace →
      Derives n (keyword :: t :: less :: parent :: opening :: (ts ++ [closing]))
        (.declaration (.classDecl ⟨t.name, some ⟨n, parent.name⟩, methods⟩)) m
  | function {n m t opening closing ps ts params body} : t.kind = .identifier →
      ParameterList ps params → opening.kind = .leftBrace → Derives n ts (.declarations body) m →
      closing.kind = .rightBrace →
      Derives n (t :: (ps ++ opening :: (ts ++ [closing]))) (.function ⟨t.name, params, body⟩) m
  | noMethods {n} : Derives n [] (.methods []) n
  | method {n k m ts us decl decls} : Derives n ts (.function decl) k →
      Derives k us (.methods decls) m → Derives n (ts ++ us) (.methods (decl :: decls)) m
  | noDeclarations {n} : Derives n [] (.declarations []) n
  | declared {n k m ts us declared body} : Derives n ts (.declaration declared) k →
      Derives k us (.declarations body) m → Derives n (ts ++ us) (.declarations (declared :: body)) m

def Unended (ts : List Token) : Prop :=
  ∀ t ∈ ts, t.kind ≠ .eof

@[simp] lemma unended_nil : Unended [] := nofun

@[simp] lemma unended_cons {t : Token} {ts : List Token} :
    Unended (t :: ts) ↔ t.kind ≠ .eof ∧ Unended ts :=
  List.forall_mem_cons

@[simp] lemma unended_append {ts us : List Token} : Unended (ts ++ us) ↔ Unended ts ∧ Unended us :=
  List.forall_mem_append

lemma Tier.ne_eof_of_connective? {tier : Tier} {kind : Token.Kind} {connective : Connective}
    (h : tier.connective? kind = some connective) : kind ≠ .eof := by
  rintro rfl
  cases tier <;> simp [connective?] at h

lemma UnaryOp.ne_eof_of_ofKind? {kind : Token.Kind} {op : UnaryOp} (h : ofKind? kind = some op) :
    kind ≠ .eof := by
  rintro rfl
  simp [ofKind?] at h

lemma NameList.unended {ts : List Token} {names : List Name} (h : NameList ts names) :
    Unended ts := by
  induction h <;> simp_all

lemma ParameterList.unended {ts : List Token} {names : List Name} (h : ParameterList ts names) :
    Unended ts := by
  cases h with
  | none hopening hclosing => simp [hopening, hclosing]
  | some hopening hclosing hnames _ => simp [hopening, hclosing, hnames.unended]

lemma Derives.unended {n m : Nat} {ts : List Token} {p : Phrase} (h : Derives n ts p m) :
    Unended ts := by
  induction h
  case join htier _ ih ih' => simp [ih, ih', Tier.ne_eof_of_connective? htier]
  case prefixed hop _ ih => simp [ih, UnaryOp.ne_eof_of_ofKind? hop]
  case literal hk => rcases hk with hk | hk <;> simp [hk]
  case function hname hparams hopening _ hclosing ih =>
    simp [hname, hparams.unended, hopening, ih, hclosing]
  all_goals simp_all

end Lox
