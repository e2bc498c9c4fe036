import Lox.Proofs.Grammar.Derivation
import Lox.Proofs.Token.Keywords
import Lox.Scope.Resolve

/-! Trees that are derived from well spelt tokens are proper: nothing is declared or assigned under the
names that stand for an instance and a superclass, and no declaration is a branch or the body of a
loop. -/

namespace Lox

/-- A name that can be declared. -/
def Scope.IsPlain (name : String) : Prop :=
  name ≠ thisName ∧ name ≠ superName

structure Token.WellSpelt (t : Token) : Prop where
  identifier : t.kind = .identifier → Scope.IsPlain t.name.text
  this : t.kind = .kwThis → t.name.text = Scope.thisName

lemma Token.wellSpelt_of_scan {source : String} {tokens : List Token}
    (h : Token.scan source = .ok tokens) {t : Token} (ht : t ∈ tokens) : t.WellSpelt where
  identifier hk :=
    ⟨lexeme_ne_keyword h ht hk ("this", .kwThis) (by decide),
      lexeme_ne_keyword h ht hk ("super", .kwSuper) (by decide)⟩
  this hk := by
    have hthis : ("this", Token.Kind.kwThis) ∈ Token.Kind.keywords := by decide
    exact lexeme_eq_keyword h ht hthis hk

def Stmt.isDeclaration : Stmt → Bool
  | .varDecl .. | .functionDecl _ | .classDecl _ => true
  | _ => false

mutual

def Expr.Proper : Expr → Prop
  | .literal _ | .read _ | .super .. => True
  | .this keyword => keyword.name.text = Scope.thisName
  | .grouping inner | .unary _ _ inner | .get inner _ => inner.Proper
  | .binary _ _ left right | .logical _ _ left right | .set left _ right =>
    left.Proper ∧ right.Proper
  | .assign target value => Scope.IsPlain target.name.text ∧ value.Proper
  | .call callee arguments _ => callee.Proper ∧ Expr.ProperAll arguments

def Expr.ProperAll : List Expr → Prop
  | [] => True
  | value :: rest => value.Proper ∧ Expr.ProperAll rest

end

def Expr.ProperOption (value : Option Expr) : Prop :=
  ∀ given ∈ value, given.Proper

lemma Expr.properOption_some {value : Expr} (h : value.Proper) : Expr.ProperOption (some value) := by
  simpa [ProperOption] using h

mutual

def Stmt.Proper : Stmt → Prop
  | .expression value | .print _ value => value.Proper
  | .varDecl name initial => Scope.IsPlain name.text ∧ Expr.ProperOption initial
  | .functionDecl decl => decl.Proper
  | .classDecl decl => decl.Proper
  | .block body => Stmt.ProperAll body
  | .ifElse condition thenBranch none =>
    condition.Proper ∧ thenBranch.isDeclaration = false ∧ thenBranch.Proper
  | .ifElse condition thenBranch (some elseBranch) =>
    condition.Proper ∧ (thenBranch.isDeclaration = false ∧ thenBranch.Proper) ∧
      elseBranch.isDeclaration = false ∧ elseBranch.Proper
  | .whileLoop condition body => condition.Proper ∧ body.isDeclaration = false ∧ body.Proper
  | .ret _ value => Expr.ProperOption value

def Stmt.ProperAll : List Stmt → Prop
  | [] => True
  | stated :: rest => stated.Proper ∧ Stmt.ProperAll rest

def FunctionDecl.Proper : FunctionDecl → Prop
  | ⟨name, params, body⟩ => Scope.IsPlain name.text ∧
    (∀ param ∈ params, Scope.IsPlain param.text) ∧ Stmt.ProperAll body

def FunctionDecl.ProperAll : List FunctionDecl → Prop
  | [] => True
  | decl :: rest => decl.Proper ∧ FunctionDecl.ProperAll rest

def ClassDecl.Proper : ClassDecl → Prop
  | ⟨name, _, methods⟩ => Scope.IsPlain name.text ∧ FunctionDecl.ProperAll methods

end

lemma FunctionDecl.proper_iff {decl : FunctionDecl} : decl.Proper ↔ Scope.IsPlain decl.name.text ∧
    (∀ param ∈ decl.params, Scope.IsPlain param.text) ∧ Stmt.ProperAll decl.body := by
  cases decl
  rfl

lemma FunctionDecl.properAll_iff {decls : List FunctionDecl} :
    FunctionDecl.ProperAll decls ↔ ∀ decl ∈ decls, decl.Proper := by
  induction decls with
  | nil => simp [FunctionDecl.ProperAll]
  | cons decl rest ih => simp [FunctionDecl.ProperAll, ih]

lemma ClassDecl.proper_iff {decl : ClassDecl} : decl.Proper ↔
    Scope.IsPlain decl.name.text ∧ ∀ method ∈ decl.methods, method.Proper := by
  cases decl
  rw [ClassDecl.Proper, FunctionDecl.properAll_iff]

def Phrase.Proper : Phrase → Prop
  | expression value | operators _ value | operand _ value | unary value | call value
  | primary value => value.Proper
  | arguments values => Expr.ProperAll values
  | optional value => Expr.ProperOption value
  | binding declared | declaration declared => declared.Proper
  | evaluation stated | statement _ stated => stated.isDeclaration = false ∧ stated.Proper
  | clause initial => ∀ first ∈ initial, first.Proper
  | declarations body => Stmt.ProperAll body
  | function decl => decl.Proper
  | methods decls => FunctionDecl.ProperAll decls

lemma Connective.proper_join (connective : Connective) (line : Nat) {left right : Expr}
    (hl : left.Proper) (hr : right.Proper) : (connective.join line left right).Proper := by
  cases connective <;> exact ⟨hl, hr⟩

lemma Stmt.proper_forLoop {initial : Option Stmt} {condition increment : Option Expr} {body : Stmt}
    (hi : ∀ first ∈ initial, first.Proper) (hc : Expr.ProperOption condition)
    (hn : Expr.ProperOption increment) (hd : body.isDeclaration = false) (hb : body.Proper) :
    (forLoop initial condition increment body).isDeclaration = false ∧
      (forLoop initial condition increment body).Proper := by
  have hcondition : (condition.getD (.literal (.boolean true))).Proper := by
    cases condition with
    | none => trivial
    | some value => exact hc value rfl
  have hround :
      (increment.elim body fun step => block [body, .expression step]).isDeclaration = false ∧
        (increment.elim body fun step => block [body, .expression step]).Proper := by
    cases increment with
    | none => exact ⟨hd, hb⟩
    | some step => exact ⟨rfl, hb, hn step rfl, trivial⟩
  cases initial with
  | none => exact ⟨rfl, hcondition, hround⟩
  | some first => exact ⟨rfl, hi first rfl, ⟨hcondition, hround⟩, trivial⟩

lemma NameList.isPlain {ts : List Token} {names : List Name} (h : NameList ts names)
    (ht : ∀ t ∈ ts, t.WellSpelt) : ∀ name ∈ names, Scope.IsPlain name.text := by
  induction h with
  | last hk =>
    simp only [List.mem_singleton, forall_eq] at ht ⊢
    exact ht.identifier hk
  | more hk _ _ ih =>
    simp only [List.forall_mem_cons] at ht ⊢
    exact ⟨ht.1.identifier hk, ih ht.2.2⟩

lemma ParameterList.isPlain {ts : List Token} {names : List Name} (h : ParameterList ts names)
    (ht : ∀ t ∈ ts, t.WellSpelt) : ∀ name ∈ names, Scope.IsPlain name.text := by
  cases h with
  | none => simp
  | some _ _ hn _ =>
    simp only [List.forall_mem_cons, List.forall_mem_append] at ht
    exact hn.isPlain ht.2.1

lemma Derives.proper {n m : Nat} {ts : List Token} {p : Phrase} (h : Derives n ts p m)
    (ht : ∀ t ∈ ts, t.WellSpelt) : p.Proper := by
  induction h with
  | assign hk _ _ ih =>
    simp only [List.forall_mem_cons] at ht
    exact ⟨ht.1.identifier hk, ih ht.2.2⟩
  | set _ _ _ _ _ ih ihv =>
    simp only [List.forall_mem_append, List.forall_mem_cons] at ht
    exact ⟨ih ht.1, ihv ht.2.2.2.2⟩
  | loosest _ ih | first _ ih | tighter _ _ ih | tightest _ _ ih | postfixed _ ih | alone _ ih
  | evaluation _ ih => exact ih ht
  | join _ _ _ ihl ihr =>
    simp only [List.forall_mem_append, List.forall_mem_cons] at ht
    exact Connective.proper_join _ _ (ihl ht.1) (ihr ht.2.2)
  | prefixed _ _ ih => exact ih (List.forall_mem_cons.mp ht).2
  | invoke _ _ _ ih => exact ⟨ih (List.forall_mem_append.mp ht).1, trivial⟩
  | invokeWith _ _ _ _ _ ih ihg =>
    simp only [List.forall_mem_append, List.forall_mem_cons] at ht
    exact ⟨ih ht.1, ihg ht.2.2.1⟩
  | get _ _ _ ih => exact ih (List.forall_mem_append.mp ht).1
  | lastArgument _ ih => exact ⟨ih ht, trivial⟩
  | argument _ _ _ ih ihs =>
    simp only [List.forall_mem_append, List.forall_mem_cons] at ht
    exact ⟨ih ht.1, ihs ht.2.2⟩
  | kwFalse | kwTrue | kwNil | literal | name | super => trivial
  | this hk => exact (List.forall_mem_singleton.mp ht).this hk
  | grouping _ _ _ ih =>
    simp only [List.forall_mem_append, List.forall_mem_cons] at ht
    exact ih ht.2.1
  | absent => simp [Phrase.Proper, Expr.ProperOption]
  | present _ ih => exact Expr.properOption_some (ih ht)
  | evaluate _ _ ih => exact ⟨rfl, ih (List.forall_mem_append.mp ht).1⟩
  | print _ _ _ ih | ret _ _ _ ih | block _ _ _ ih =>
    simp only [List.forall_mem_append, List.forall_mem_cons] at ht
    exact ⟨rfl, ih ht.2.1⟩
  | ifThen _ _ _ _ _ ih ihb | whileLoop _ _ _ _ _ ih ihb =>
    simp only [List.forall_mem_append, List.forall_mem_cons] at ht
    exact ⟨rfl, ih ht.2.2.1, ihb ht.2.2.2.2⟩
  | ifThenElse _ _ _ _ _ _ _ ih ihb iha =>
    simp only [List.forall_mem_append, List.forall_mem_cons] at ht
    exact ⟨rfl, ih ht.2.2.1, ihb ht.2.2.2.2.1, iha ht.2.2.2.2.2.2⟩
  | forLoop _ _ _ _ _ _ _ _ ihi ihc ihn ihb =>
    simp only [List.forall_mem_append, List.forall_mem_cons] at ht
    obtain ⟨-, -, hts, hus, -, hvs, -, hws⟩ := ht
    exact Stmt.proper_forLoop (ihi hts) (ihc hus) (ihn hvs) (ihb hws).1 (ihb hws).2
  | noClause => simp [Phrase.Proper]
  | binds _ _ ih => simpa [Phrase.Proper] using ih (List.forall_mem_cons.mp ht).2
  | evaluates _ ih => simpa [Phrase.Proper] using (ih ht).2
  | uninitialized hk _ =>
    simp only [List.forall_mem_cons] at ht
    exact ⟨ht.1.identifier hk, by simp [Expr.ProperOption]⟩
  | initialized hk _ _ _ ih =>
    simp only [List.forall_mem_append, List.forall_mem_cons] at ht
    exact ⟨ht.1.identifier hk, Expr.properOption_some (ih ht.2.2.1)⟩
  | statement _ ih => exact (ih ht).2
  | varDecl _ _ ih | functionDecl _ _ ih => exact ih (List.forall_mem_cons.mp ht).2
  | classDecl _ hk _ _ _ ih =>
    simp only [List.forall_mem_append, List.forall_mem_cons] at ht
    exact ⟨ht.2.1.identifier hk, ih ht.2.2.2.1⟩
  | subclassDecl _ hk _ _ _ _ _ ih =>
    simp only [List.forall_mem_append, List.forall_mem_cons] at ht
    exact ⟨ht.2.1.identifier hk, ih ht.2.2.2.2.2.1⟩
  | function hk hp _ _ _ ih =>
    simp only [List.forall_mem_append, List.forall_mem_cons] at ht
    exact ⟨ht.1.identifier hk, hp.isPlain ht.2.1, ih ht.2.2.2.1⟩
  | noMethods | noDeclarations => trivial
  | method _ _ ih ihs | declared _ _ ih ihs =>
    obtain ⟨hts, hus⟩ := List.forall_mem_append.mp ht
    exact ⟨ih hts, ihs hus⟩

end Lox
