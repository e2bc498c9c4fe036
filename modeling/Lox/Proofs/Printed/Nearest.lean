import Lox.Proofs.Grammar.Soundness.Statement

/-! Each `else` of a tree belongs to the nearest `if` in front of it. -/

namespace Lox

/-- Whether an `else` behind the statement would belong to an `if` inside. -/
def Stmt.dangles : Stmt → Bool
  | .ifElse _ _ none => true
  | .ifElse _ _ (some elseBranch) => elseBranch.dangles
  | .whileLoop _ body => body.dangles
  | _ => false

mutual

/-- No branch in front of an `else` dangles. -/
def Stmt.Nearest : Stmt → Prop
  | .expression _ | .print .. | .varDecl .. | .ret .. => True
  | .functionDecl decl => decl.Nearest
  | .classDecl decl => decl.Nearest
  | .block body => Stmt.NearestAll body
  | .ifElse _ thenBranch none => thenBranch.Nearest
  | .ifElse _ thenBranch (some elseBranch) =>
    thenBranch.dangles = false ∧ thenBranch.Nearest ∧ elseBranch.Nearest
  | .whileLoop _ body => body.Nearest

def Stmt.NearestAll : List Stmt → Prop
  | [] => True
  | stated :: rest => stated.Nearest ∧ Stmt.NearestAll rest

def FunctionDecl.Nearest : FunctionDecl → Prop
  | ⟨_, _, body⟩ => Stmt.NearestAll body

def FunctionDecl.NearestAll : List FunctionDecl → Prop
  | [] => True
  | decl :: rest => decl.Nearest ∧ FunctionDecl.NearestAll rest

def ClassDecl.Nearest : ClassDecl → Prop
  | ⟨_, _, methods⟩ => FunctionDecl.NearestAll methods

end

def Phrase.Nearest : Phrase → Prop
  | binding declared | declaration declared => declared.Nearest
  | evaluation stated => stated.dangles = false ∧ stated.Nearest
  | statement dangling stated => (stated.dangles = true → dangling = true) ∧ stated.Nearest
  | clause initial => ∀ first ∈ initial, first.Nearest
  | declarations body => Stmt.NearestAll body
  | function decl => decl.Nearest
  | methods decls => FunctionDecl.NearestAll decls
  | _ => True

lemma Stmt.nearest_forLoop {initial : Option Stmt} {condition increment : Option Expr} {body : Stmt}
    (hi : ∀ first ∈ initial, first.Nearest) (hb : body.Nearest) :
    ((forLoop initial condition increment body).dangles = true → body.dangles = true) ∧
      (forLoop initial condition increment body).Nearest := by
  cases initial <;> cases increment <;>
    simp_all [forLoop, Stmt.Nearest, Stmt.NearestAll, Stmt.dangles]

lemma Derives.nearest {n m : Nat} {ts : List Token} {p : Phrase} (h : Derives n ts p m) :
    p.Nearest := by
  induction h
  case forLoop ihi _ _ ihb =>
    obtain ⟨hdangles, hnearest⟩ := Stmt.nearest_forLoop ihi ihb.2
    exact ⟨fun h => ihb.1 (hdangles h), hnearest⟩
  all_goals simp_all [Phrase.Nearest, Stmt.Nearest, Stmt.NearestAll, Stmt.dangles,
    FunctionDecl.Nearest, FunctionDecl.NearestAll, ClassDecl.Nearest]

end Lox
