import Lox.Scope.Resolve
import Lox.Proofs.Identity.Renaming

/-! Names are resolved by their texts. With other identities a program has the same violations, and
the same distances under the other identities. -/

namespace Lox

namespace Findings

def rename (ρ : Nat → Nat) (found : Findings) : Findings :=
  ⟨found.distances.map fun (id, distance) => (ρ id, distance), found.violations⟩

variable (ρ : Nat → Nat)

@[simp] lemma rename_empty : (∅ : Findings).rename ρ = ∅ := rfl

@[simp] lemma rename_append (a b : Findings) : (a ++ b).rename ρ = a.rename ρ ++ b.rename ρ := by
  change Findings.mk _ _ = Findings.mk _ _
  simp [rename]

@[simp] lemma rename_violation (cause : Violation.Cause) (name : Name) :
    (violation cause name).rename ρ = violation cause name := rfl

@[simp] lemma rename_violationIf (condition : Bool) (cause : Violation.Cause) (name : Name) :
    (violationIf condition cause name).rename ρ = violationIf condition cause name := by
  cases condition <;> rfl

@[simp] lemma rename_bound (scopes : List Scope) (id : Nat) (name : String) :
    (bound scopes id name).rename ρ = bound scopes (ρ id) name := by
  unfold bound
  split <;> rfl

end Findings

variable {ρ : Nat → Nat}

@[simp] lemma Scope.rename_declare (name : Name) (scopes : List Scope) :
    (Scope.declare name scopes).1.rename ρ = (Scope.declare name scopes).1 := by
  cases scopes <;> simp [Scope.declare]

@[simp] lemma Scope.rename_introduce (name : Name) (scopes : List Scope) :
    (Scope.introduce name scopes).1.rename ρ = (Scope.introduce name scopes).1 :=
  Scope.rename_declare name scopes

@[simp] lemma Scope.rename_introduceAll (names : List Name) (scopes : List Scope) :
    (Scope.introduceAll names scopes).1.rename ρ = (Scope.introduceAll names scopes).1 := by
  induction names generalizing scopes with
  | nil => rfl
  | cons name names ih => simp [Scope.introduceAll, ih]

@[simp] lemma Reference.resolveRead_rename (scopes : List Scope) (target : Reference) :
    (target.rename ρ).resolveRead scopes = (target.resolveRead scopes).rename ρ := by
  simp [Reference.resolveRead]

mutual

lemma Expr.resolve_rename (context : Context) (scopes : List Scope) (value : Expr) :
    (value.rename ρ).resolve context scopes = (value.resolve context scopes).rename ρ := by
  cases value with
  | literal => rfl
  | read target => exact Reference.resolveRead_rename scopes target
  | this keyword =>
    simp only [Expr.rename, Expr.resolve]
    split <;> simp
  | super keyword method => simp [Expr.rename, Expr.resolve]
  | grouping inner | unary _ _ inner | get inner _ =>
    simp only [Expr.rename, Expr.resolve, Expr.resolve_rename context scopes inner]
  | binary _ _ left right | logical _ _ left right | set left _ right =>
    simp only [Expr.rename, Expr.resolve, Expr.resolve_rename context scopes left,
      Expr.resolve_rename context scopes right, Findings.rename_append]
  | assign target value =>
    simp [Expr.rename, Expr.resolve, Expr.resolve_rename context scopes value]
  | call callee arguments line =>
    simp only [Expr.rename, Expr.resolve, Expr.resolve_rename context scopes callee,
      Expr.resolveAll_rename context scopes arguments, Findings.rename_append]

lemma Expr.resolveAll_rename (context : Context) (scopes : List Scope) (values : List Expr) :
    Expr.resolveAll context scopes (Expr.renameAll ρ values) =
      (Expr.resolveAll context scopes values).rename ρ := by
  cases values with
  | nil => rfl
  | cons value rest =>
    simp only [Expr.renameAll, Expr.resolveAll, Expr.resolve_rename context scopes value,
      Expr.resolveAll_rename context scopes rest, Findings.rename_append]

end

lemma Expr.resolveOption_rename (context : Context) (scopes : List Scope) (value : Option Expr) :
    Expr.resolveOption context scopes (value.map (Expr.rename ρ)) =
      (Expr.resolveOption context scopes value).rename ρ := by
  cases value with
  | none => rfl
  | some value => exact value.resolve_rename context scopes

lemma Stmt.resolveReturn_rename (context : Context) (scopes : List Scope) (keyword : Name)
    (value : Option Expr) :
    Stmt.resolveReturn context scopes keyword (value.map (Expr.rename ρ)) =
      (Stmt.resolveReturn context scopes keyword value).rename ρ := by
  simp [Stmt.resolveReturn, Expr.resolveOption_rename]

mutual

lemma Stmt.resolve_rename (context : Context) (scopes : List Scope) (stated : Stmt) :
    (stated.rename ρ).resolve context scopes =
      ((stated.resolve context scopes).1.rename ρ, (stated.resolve context scopes).2) := by
  cases stated with
  | expression value | print _ value =>
    simp only [Stmt.rename, Stmt.resolve, Expr.resolve_rename]
  | varDecl name initial =>
    simp [Stmt.rename, Stmt.resolve, Expr.resolveOption_rename]
  | functionDecl decl =>
    simp [Stmt.rename, Stmt.resolve, FunctionDecl.resolve_rename _ _ decl]
  | classDecl decl =>
    obtain ⟨name, superclass, methods⟩ := decl
    cases superclass with
    | none =>
      simp [Stmt.rename, ClassDecl.rename, Stmt.resolve, ClassDecl.resolve,
        FunctionDecl.resolveMethods_rename _ _ methods]
    | some parent =>
      simp [Stmt.rename, ClassDecl.rename, Stmt.resolve, ClassDecl.resolve,
        FunctionDecl.resolveMethods_rename _ _ methods]
  | block body => simp [Stmt.rename, Stmt.resolve, Stmt.resolveAll_rename _ _ body]
  | ifElse condition thenBranch elseBranch =>
    cases elseBranch with
    | none =>
      simp [Stmt.rename, Stmt.resolve, Expr.resolve_rename, Stmt.resolve_rename _ _ thenBranch]
    | some elseBranch =>
      simp [Stmt.rename, Stmt.resolve, Expr.resolve_rename, Stmt.resolve_rename _ _ thenBranch,
        Stmt.resolve_rename _ _ elseBranch]
  | whileLoop condition body =>
    simp [Stmt.rename, Stmt.resolve, Expr.resolve_rename, Stmt.resolve_rename _ _ body]
  | ret keyword value => simp [Stmt.rename, Stmt.resolve, Stmt.resolveReturn_rename]

lemma Stmt.resolveAll_rename (context : Context) (scopes : List Scope) (body : List Stmt) :
    Stmt.resolveAll context scopes (Stmt.renameAll ρ body) =
      ((Stmt.resolveAll context scopes body).1.rename ρ,
        (Stmt.resolveAll context scopes body).2) := by
  cases body with
  | nil => rfl
  | cons stated rest =>
    simp [Stmt.renameAll, Stmt.resolveAll, Stmt.resolve_rename _ _ stated,
      Stmt.resolveAll_rename _ _ rest]

lemma FunctionDecl.resolve_rename (context : Context) (scopes : List Scope) (decl : FunctionDecl) :
    (decl.rename ρ).resolve context scopes = (decl.resolve context scopes).rename ρ := by
  obtain ⟨name, params, body⟩ := decl
  simp [FunctionDecl.rename, FunctionDecl.resolve, Stmt.resolveAll_rename _ _ body]

lemma FunctionDecl.resolveMethods_rename (context : Context) (scopes : List Scope)
    (methods : List FunctionDecl) :
    FunctionDecl.resolveMethods context scopes (FunctionDecl.renameAll ρ methods) =
      (FunctionDecl.resolveMethods context scopes methods).rename ρ := by
  cases methods with
  | nil => rfl
  | cons method rest =>
    simp [FunctionDecl.renameAll, FunctionDecl.resolveMethods, FunctionDecl.resolve_rename _ _ method,
      FunctionDecl.resolveMethods_rename _ _ rest]

end

lemma Program.resolve_rename (program : Program) :
    Program.resolve (Stmt.renameAll ρ program) =
      (Program.resolve program).map (List.map fun (id, distance) => (ρ id, distance)) := by
  simp only [Program.resolve, Stmt.resolveAll_rename, Findings.rename]
  split <;> rfl

end Lox
