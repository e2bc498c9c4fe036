import Lox.Proofs.Grammar.Proper
import Lox.Proofs.Grammar.Soundness.Statement

/-! Trees that are derived from tokens, whatever the tokens spell: names are declared and assigned that some
token gives, and no declaration is a branch or the body of a loop. -/

namespace Lox

mutual

/-- The names that are assigned are given ones. -/
def Expr.Formed (given : String → Prop) : Expr → Prop
  | .literal _ | .read _ | .this _ | .super .. => True
  | .grouping inner | .unary _ _ inner | .get inner _ => inner.Formed given
  | .binary _ _ left right | .logical _ _ left right | .set left _ right =>
    left.Formed given ∧ right.Formed given
  | .assign target value => given target.name.text ∧ value.Formed given
  | .call callee arguments _ => callee.Formed given ∧ Expr.FormedAll given arguments

def Expr.FormedAll (given : String → Prop) : List Expr → Prop
  | [] => True
  | value :: rest => value.Formed given ∧ Expr.FormedAll given rest

end

def Expr.FormedOption (given : String → Prop) (value : Option Expr) : Prop :=
  ∀ inner ∈ value, inner.Formed given

mutual

/-- The names that are declared and assigned are given ones, and no branch is a declaration. -/
def Stmt.Formed (given : String → Prop) : Stmt → Prop
  | .expression value | .print _ value => value.Formed given
  | .varDecl name initial => given name.text ∧ Expr.FormedOption given initial
  | .functionDecl decl => decl.Formed given
  | .classDecl decl => decl.Formed given
  | .block body => Stmt.FormedAll given body
  | .ifElse condition thenBranch none =>
    condition.Formed given ∧ thenBranch.isDeclaration = false ∧ thenBranch.Formed given
  | .ifElse condition thenBranch (some elseBranch) =>
    condition.Formed given ∧ (thenBranch.isDeclaration = false ∧ thenBranch.Formed given) ∧
      elseBranch.isDeclaration = false ∧ elseBranch.Formed given
  | .whileLoop condition body =>
    condition.Formed given ∧ body.isDeclaration = false ∧ body.Formed given
  | .ret _ value => Expr.FormedOption given value

def Stmt.FormedAll (given : String → Prop) : List Stmt → Prop
  | [] => True
  | stated :: rest => stated.Formed given ∧ Stmt.FormedAll given rest

def FunctionDecl.Formed (given : String → Prop) : FunctionDecl → Prop
  | ⟨name, params, body⟩ =>
    given name.text ∧ (∀ param ∈ params, given param.text) ∧ Stmt.FormedAll given body

def FunctionDecl.FormedAll (given : String → Prop) : List FunctionDecl → Prop
  | [] => True
  | decl :: rest => decl.Formed given ∧ FunctionDecl.FormedAll given rest

def ClassDecl.Formed (given : String → Prop) : ClassDecl → Prop
  | ⟨name, _, methods⟩ => given name.text ∧ FunctionDecl.FormedAll given methods

end

variable {given : String → Prop}

lemma Expr.formedOption_some {value : Expr} (h : value.Formed given) :
    Expr.FormedOption given (some value) := by
  simpa [FormedOption] using h

lemma FunctionDecl.formed_iff {decl : FunctionDecl} : decl.Formed given ↔ given decl.name.text ∧
    (∀ param ∈ decl.params, given param.text) ∧ Stmt.FormedAll given decl.body := by
  cases decl
  rfl

lemma FunctionDecl.formedAll_iff {decls : List FunctionDecl} :
    FunctionDecl.FormedAll given decls ↔ ∀ decl ∈ decls, decl.Formed given := by
  induction decls with
  | nil => simp [FunctionDecl.FormedAll]
  | cons decl rest ih => simp [FunctionDecl.FormedAll, ih]

lemma ClassDecl.formed_iff {decl : ClassDecl} : decl.Formed given ↔
    given decl.name.text ∧ ∀ method ∈ decl.methods, method.Formed given := by
  cases decl
  rw [ClassDecl.Formed, FunctionDecl.formedAll_iff]

def Phrase.Formed (given : String → Prop) : Phrase → Prop
  | expression value | operators _ value | operand _ value | unary value | call value
  | primary value => value.Formed given
  | arguments values => Expr.FormedAll given values
  | optional value => Expr.FormedOption given value
  | binding declared | declaration declared => declared.Formed given
  | evaluation stated | statement _ stated => stated.isDeclaration = false ∧ stated.Formed given
  | clause initial => ∀ first ∈ initial, first.Formed given
  | declarations body => Stmt.FormedAll given body
  | function decl => decl.Formed given
  | methods decls => FunctionDecl.FormedAll given decls

lemma Connective.formed_join (connective : Connective) (line : Nat) {left right : Expr}
    (hl : left.Formed given) (hr : right.Formed given) :
    (connective.join line left right).Formed given := by
  cases connective <;> exact ⟨hl, hr⟩

lemma Stmt.formed_forLoop {initial : Option Stmt} {condition increment : Option Expr} {body : Stmt}
    (hi : ∀ first ∈ initial, first.Formed given) (hc : Expr.FormedOption given condition)
    (hn : Expr.FormedOption given increment) (hd : body.isDeclaration = false)
    (hb : body.Formed given) :
    (forLoop initial condition increment body).isDeclaration = false ∧
      (forLoop initial condition increment body).Formed given := by
  have hcondition : (condition.getD (.literal (.boolean true))).Formed given := by
    cases condition with
    | none => trivial
    | some value => exact hc value rfl
  have hround :
      (increment.elim body fun step => block [body, .expression step]).isDeclaration = false ∧
        (increment.elim body fun step => block [body, .expression step]).Formed given := by
    cases increment with
    | none => exact ⟨hd, hb⟩
    | some step => exact ⟨rfl, hb, hn step rfl, trivial⟩
  cases initial with
  | none => exact ⟨rfl, hcondition, hround⟩
  | some first => exact ⟨rfl, hi first rfl, ⟨hcondition, hround⟩, trivial⟩

/-- Each token that names something has a given name. -/
def Token.Gives (given : String → Prop) (t : Token) : Prop :=
  t.kind = .identifier → given t.name.text

lemma NameList.forall_given {ts : List Token} {names : List Name} (h : NameList ts names)
    (ht : ∀ t ∈ ts, t.Gives given) : ∀ name ∈ names, given name.text := by
  induction h with
  | last hk =>
    simp only [List.mem_singleton, forall_eq] at ht ⊢
    exact ht hk
  | more hk _ _ ih =>
    simp only [List.forall_mem_cons] at ht ⊢
    exact ⟨ht.1 hk, ih ht.2.2⟩

lemma ParameterList.forall_given {ts : List Token} {names : List Name} (h : ParameterList ts names)
    (ht : ∀ t ∈ ts, t.Gives given) : ∀ name ∈ names, given name.text := by
  cases h with
  | none => simp
  | some _ _ hn _ =>
    simp only [List.forall_mem_cons, List.forall_mem_append] at ht
    exact hn.forall_given ht.2.1

lemma Derives.formed {n m : Nat} {ts : List Token} {p : Phrase} (h : Derives n ts p m)
    (ht : ∀ t ∈ ts, t.Gives given) : p.Formed given := by
  induction h with
  | assign hk _ _ ih =>
    simp only [List.forall_mem_cons] at ht
    exact ⟨ht.1 hk, ih ht.2.2⟩
  | set _ _ _ _ _ ih ihv =>
    simp only [List.forall_mem_append, List.forall_mem_cons] at ht
    exact ⟨ih ht.1, ihv ht.2.2.2.2⟩
  | loosest _ ih | first _ ih | tighter _ _ ih | tightest _ _ ih | postfixed _ ih | alone _ ih
  | evaluation _ ih => exact ih ht
  | join _ _ _ ihl ihr =>
    simp only [List.forall_mem_append, List.forall_mem_cons] at ht
    exact Connective.formed_join _ _ (ihl ht.1) (ihr ht.2.2)
  | prefixed _ _ ih => exact ih (List.forall_mem_cons.mp ht).2
  | invoke _ _ _ ih => exact ⟨ih (List.forall_mem_append.mp ht).1, trivial⟩
  | invokeWith _ _ _ _ _ ih ihg =>
    simp only [List.forall_mem_append, List.forall_mem_cons] at ht
    exact ⟨ih ht.1, ihg ht.2.2.1⟩
  | get _ _ _ ih => exact ih (List.forall_mem_append.mp ht).1
  | lastArgument _ ih => exact ⟨ih ht, trivial⟩
  | argument _ _ _ ih ihs =>
    simp only [List.forall_mem_append, List.forall_mem_cons] at ht
    exact ⟨ih ht.1, ihs ht.2.2⟩
  | kwFalse | kwTrue | kwNil | literal | name | super | this => trivial
  | grouping _ _ _ ih =>
    simp only [List.forall_mem_append, List.forall_mem_cons] at ht
    exact ih ht.2.1
  | absent => simp [Phrase.Formed, Expr.FormedOption]
  | present _ ih => exact Expr.formedOption_some (ih ht)
  | evaluate _ _ ih => exact ⟨rfl, ih (List.forall_mem_append.mp ht).1⟩
  | print _ _ _ ih | ret _ _ _ ih | block _ _ _ ih =>
    simp only [List.forall_mem_append, List.forall_mem_cons] at ht
    exact ⟨rfl, ih ht.2.1⟩
  | ifThen _ _ _ _ _ ih ihb | whileLoop _ _ _ _ _ ih ihb =>
    simp only [List.forall_mem_append, List.forall_mem_cons] at ht
    exact ⟨rfl, ih ht.2.2.1, ihb ht.2.2.2.2⟩
  | ifThenElse _ _ _ _ _ _ _ ih ihb iha =>
    simp only [List.forall_mem_append, List.forall_mem_cons] at ht
    exact ⟨rfl, ih ht.2.2.1, ihb ht.2.2.2.2.1, iha ht.2.2.2.2.2.2⟩
  | forLoop _ _ _ _ _ _ _ _ ihi ihc ihn ihb =>
    simp only [List.forall_mem_append, List.forall_mem_cons] at ht
    obtain ⟨-, -, hts, hus, -, hvs, -, hws⟩ := ht
    exact Stmt.formed_forLoop (ihi hts) (ihc hus) (ihn hvs) (ihb hws).1 (ihb hws).2
  | noClause => simp [Phrase.Formed]
  | binds _ _ ih => simpa [Phrase.Formed] using ih (List.forall_mem_cons.mp ht).2
  | evaluates _ ih => simpa [Phrase.Formed] using (ih ht).2
  | uninitialized hk _ =>
    simp only [List.forall_mem_cons] at ht
    exact ⟨ht.1 hk, by simp [Expr.FormedOption]⟩
  | initialized hk _ _ _ ih =>
    simp only [List.forall_mem_append, List.forall_mem_cons] at ht
    exact ⟨ht.1 hk, Expr.formedOption_some (ih ht.2.2.1)⟩
  | statement _ ih => exact (ih ht).2
  | varDecl _ _ ih | functionDecl _ _ ih => exact ih (List.forall_mem_cons.mp ht).2
  | classDecl _ hk _ _ _ ih =>
    simp only [List.forall_mem_append, List.forall_mem_cons] at ht
    exact ⟨ht.2.1 hk, ih ht.2.2.2.1⟩
  | subclassDecl _ hk _ _ _ _ _ ih =>
    simp only [List.forall_mem_append, List.forall_mem_cons] at ht
    exact ⟨ht.2.1 hk, ih ht.2.2.2.2.2.1⟩
  | function hk hp _ _ _ ih =>
    simp only [List.forall_mem_append, List.forall_mem_cons] at ht
    exact ⟨ht.1 hk, hp.forall_given ht.2.1, ih ht.2.2.2.1⟩
  | noMethods | noDeclarations => trivial
  | method _ _ ih ihs | declared _ _ ih ihs =>
    obtain ⟨hts, hus⟩ := List.forall_mem_append.mp ht
    exact ⟨ih hts, ihs hus⟩

lemma Program.formed_of_parse {tokens : List Token} {n nextId : Nat} {program : Program}
    (h : Program.parse tokens n = (.ok program, nextId)) (ht : ∀ t ∈ tokens, t.Gives given) :
    Stmt.FormedAll given program :=
  (Parser.parse_sound h).formed fun t hmem => ht t ((List.takeWhile_sublist _).subset hmem)

end Lox
