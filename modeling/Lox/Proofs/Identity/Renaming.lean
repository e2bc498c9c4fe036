import Lox.Syntax
import Mathlib.Tactic.Common

/-! Trees with other identities for their references, and the identities of a tree. -/

namespace Lox

def Reference.rename (ρ : Nat → Nat) (target : Reference) : Reference :=
  { target with id := ρ target.id }

@[simp] lemma Reference.name_rename (ρ : Nat → Nat) (target : Reference) :
    (target.rename ρ).name = target.name := rfl

@[simp] lemma Reference.id_rename (ρ : Nat → Nat) (target : Reference) :
    (target.rename ρ).id = ρ target.id := rfl

mutual

def Expr.rename (ρ : Nat → Nat) : Expr → Expr
  | .literal value => .literal value
  | .grouping inner => .grouping (inner.rename ρ)
  | .unary op line operand => .unary op line (operand.rename ρ)
  | .binary op line left right => .binary op line (left.rename ρ) (right.rename ρ)
  | .logical op line left right => .logical op line (left.rename ρ) (right.rename ρ)
  | .read target => .read (target.rename ρ)
  | .assign target value => .assign (target.rename ρ) (value.rename ρ)
  | .call callee arguments line => .call (callee.rename ρ) (Expr.renameAll ρ arguments) line
  | .get object property => .get (object.rename ρ) property
  | .set object property value => .set (object.rename ρ) property (value.rename ρ)
  | .this keyword => .this (keyword.rename ρ)
  | .super keyword method => .super (keyword.rename ρ) method

def Expr.renameAll (ρ : Nat → Nat) : List Expr → List Expr
  | [] => []
  | value :: rest => value.rename ρ :: Expr.renameAll ρ rest

end

mutual

def Stmt.rename (ρ : Nat → Nat) : Stmt → Stmt
  | .expression value => .expression (value.rename ρ)
  | .print line value => .print line (value.rename ρ)
  | .varDecl name initial => .varDecl name (initial.map (Expr.rename ρ))
  | .functionDecl decl => .functionDecl (decl.rename ρ)
  | .classDecl decl => .classDecl (decl.rename ρ)
  | .block body => .block (Stmt.renameAll ρ body)
  | .ifElse condition thenBranch none =>
    .ifElse (condition.rename ρ) (thenBranch.rename ρ) none
  | .ifElse condition thenBranch (some elseBranch) =>
    .ifElse (condition.rename ρ) (thenBranch.rename ρ) (some (elseBranch.rename ρ))
  | .whileLoop condition body => .whileLoop (condition.rename ρ) (body.rename ρ)
  | .ret keyword value => .ret keyword (value.map (Expr.rename ρ))

def Stmt.renameAll (ρ : Nat → Nat) : List Stmt → List Stmt
  | [] => []
  | stated :: rest => stated.rename ρ :: Stmt.renameAll ρ rest

def FunctionDecl.rename (ρ : Nat → Nat) : FunctionDecl → FunctionDecl
  | ⟨name, params, body⟩ => ⟨name, params, Stmt.renameAll ρ body⟩

def FunctionDecl.renameAll (ρ : Nat → Nat) : List FunctionDecl → List FunctionDecl
  | [] => []
  | decl :: rest => decl.rename ρ :: FunctionDecl.renameAll ρ rest

def ClassDecl.rename (ρ : Nat → Nat) : ClassDecl → ClassDecl
  | ⟨name, superclass, methods⟩ =>
    ⟨name, superclass.map (Reference.rename ρ), FunctionDecl.renameAll ρ methods⟩

end

mutual

/-- The identities in a tree, from left to right. -/
def Expr.ids : Expr → List Nat
  | .literal _ => []
  | .grouping inner => inner.ids
  | .unary _ _ operand => operand.ids
  | .binary _ _ left right => left.ids ++ right.ids
  | .logical _ _ left right => left.ids ++ right.ids
  | .read target => [target.id]
  | .assign target value => target.id :: value.ids
  | .call callee arguments _ => callee.ids ++ Expr.idsAll arguments
  | .get object _ => object.ids
  | .set object _ value => object.ids ++ value.ids
  | .this keyword => [keyword.id]
  | .super keyword _ => [keyword.id]

def Expr.idsAll : List Expr → List Nat
  | [] => []
  | value :: rest => value.ids ++ Expr.idsAll rest

end

mutual

def Stmt.ids : Stmt → List Nat
  | .expression value => value.ids
  | .print _ value => value.ids
  | .varDecl _ initial => initial.elim [] Expr.ids
  | .functionDecl decl => decl.ids
  | .classDecl decl => decl.ids
  | .block body => Stmt.idsAll body
  | .ifElse condition thenBranch none => condition.ids ++ thenBranch.ids
  | .ifElse condition thenBranch (some elseBranch) =>
    condition.ids ++ (thenBranch.ids ++ elseBranch.ids)
  | .whileLoop condition body => condition.ids ++ body.ids
  | .ret _ value => value.elim [] Expr.ids

def Stmt.idsAll : List Stmt → List Nat
  | [] => []
  | stated :: rest => stated.ids ++ Stmt.idsAll rest

def FunctionDecl.ids : FunctionDecl → List Nat
  | ⟨_, _, body⟩ => Stmt.idsAll body

def FunctionDecl.idsAll : List FunctionDecl → List Nat
  | [] => []
  | decl :: rest => decl.ids ++ FunctionDecl.idsAll rest

def ClassDecl.ids : ClassDecl → List Nat
  | ⟨_, superclass, methods⟩ => (superclass.elim [] fun parent => [parent.id]) ++
    FunctionDecl.idsAll methods

end

variable (ρ σ : Nat → Nat)

lemma Expr.renameAll_eq_map (values : List Expr) :
    Expr.renameAll ρ values = values.map (Expr.rename ρ) := by
  induction values with
  | nil => rfl
  | cons value rest ih => simp [Expr.renameAll, ih]

lemma Stmt.renameAll_eq_map (body : List Stmt) :
    Stmt.renameAll ρ body = body.map (Stmt.rename ρ) := by
  induction body with
  | nil => rfl
  | cons stated rest ih => simp [Stmt.renameAll, ih]

lemma FunctionDecl.renameAll_eq_map (decls : List FunctionDecl) :
    FunctionDecl.renameAll ρ decls = decls.map (FunctionDecl.rename ρ) := by
  induction decls with
  | nil => rfl
  | cons decl rest ih => simp [FunctionDecl.renameAll, ih]

@[simp] lemma FunctionDecl.name_rename (decl : FunctionDecl) : (decl.rename ρ).name = decl.name := by
  cases decl
  rfl

@[simp] lemma FunctionDecl.params_rename (decl : FunctionDecl) :
    (decl.rename ρ).params = decl.params := by
  cases decl
  rfl

@[simp] lemma FunctionDecl.body_rename (decl : FunctionDecl) :
    (decl.rename ρ).body = decl.body.map (Stmt.rename ρ) := by
  cases decl
  exact Stmt.renameAll_eq_map ..

@[simp] lemma FunctionDecl.isInitializer_rename (decl : FunctionDecl) :
    (decl.rename ρ).isInitializer = decl.isInitializer := by
  simp [FunctionDecl.isInitializer]

mutual

lemma Expr.rename_rename (value : Expr) : (value.rename ρ).rename σ = value.rename (σ ∘ ρ) := by
  cases value with
  | literal | read | this | super => rfl
  | grouping inner | unary _ _ inner | get inner _ =>
    simp only [Expr.rename, Expr.rename_rename inner]
  | binary _ _ left right | logical _ _ left right | set left _ right =>
    simp only [Expr.rename, Expr.rename_rename left, Expr.rename_rename right]
  | assign target value =>
    simp only [Expr.rename, Expr.rename_rename value]
    rfl
  | call callee arguments line =>
    simp only [Expr.rename, Expr.rename_rename callee, Expr.renameAll_renameAll arguments]

lemma Expr.renameAll_renameAll (values : List Expr) :
    Expr.renameAll σ (Expr.renameAll ρ values) = Expr.renameAll (σ ∘ ρ) values := by
  cases values with
  | nil => rfl
  | cons value rest =>
    simp only [Expr.renameAll, Expr.rename_rename value, Expr.renameAll_renameAll rest]

end

lemma Expr.map_rename_rename (value : Option Expr) :
    (value.map (Expr.rename ρ)).map (Expr.rename σ) = value.map (Expr.rename (σ ∘ ρ)) := by
  cases value <;> simp [Expr.rename_rename]

mutual

lemma Stmt.rename_rename (stated : Stmt) :
    (stated.rename ρ).rename σ = stated.rename (σ ∘ ρ) := by
  cases stated with
  | expression value | print _ value => simp only [Stmt.rename, Expr.rename_rename]
  | varDecl _ initial | ret _ initial => simp only [Stmt.rename, Expr.map_rename_rename]
  | functionDecl decl => simp only [Stmt.rename, FunctionDecl.rename_rename decl]
  | classDecl decl =>
    obtain ⟨name, superclass, methods⟩ := decl
    simp only [Stmt.rename, ClassDecl.rename, FunctionDecl.renameAll_renameAll methods]
    cases superclass <;> rfl
  | block body => simp only [Stmt.rename, Stmt.renameAll_renameAll body]
  | ifElse condition thenBranch elseBranch =>
    cases elseBranch with
    | none => simp only [Stmt.rename, Expr.rename_rename, Stmt.rename_rename thenBranch]
    | some elseBranch =>
      simp only [Stmt.rename, Expr.rename_rename, Stmt.rename_rename thenBranch,
        Stmt.rename_rename elseBranch]
  | whileLoop condition body =>
    simp only [Stmt.rename, Expr.rename_rename, Stmt.rename_rename body]

lemma Stmt.renameAll_renameAll (body : List Stmt) :
    Stmt.renameAll σ (Stmt.renameAll ρ body) = Stmt.renameAll (σ ∘ ρ) body := by
  cases body with
  | nil => rfl
  | cons stated rest =>
    simp only [Stmt.renameAll, Stmt.rename_rename stated, Stmt.renameAll_renameAll rest]

lemma FunctionDecl.rename_rename (decl : FunctionDecl) :
    (decl.rename ρ).rename σ = decl.rename (σ ∘ ρ) := by
  obtain ⟨name, params, body⟩ := decl
  simp only [FunctionDecl.rename, Stmt.renameAll_renameAll body]

lemma FunctionDecl.renameAll_renameAll (decls : List FunctionDecl) :
    FunctionDecl.renameAll σ (FunctionDecl.renameAll ρ decls) =
      FunctionDecl.renameAll (σ ∘ ρ) decls := by
  cases decls with
  | nil => rfl
  | cons decl rest =>
    simp only [FunctionDecl.renameAll, FunctionDecl.rename_rename decl,
      FunctionDecl.renameAll_renameAll rest]

end

variable {ρ σ}

mutual

lemma Expr.rename_congr (value : Expr) (h : ∀ i ∈ value.ids, ρ i = σ i) :
    value.rename ρ = value.rename σ := by
  cases value with
  | literal => rfl
  | read target | this target | super target _ =>
    simp only [Expr.ids, List.mem_singleton, forall_eq] at h
    simp only [Expr.rename, Reference.rename, h]
  | grouping inner | unary _ _ inner | get inner _ =>
    simp only [Expr.rename, Expr.rename_congr inner h]
  | binary _ _ left right | logical _ _ left right | set left _ right =>
    simp only [Expr.ids, List.forall_mem_append] at h
    simp only [Expr.rename, Expr.rename_congr left h.1, Expr.rename_congr right h.2]
  | assign target value =>
    simp only [Expr.ids, List.forall_mem_cons] at h
    simp only [Expr.rename, Reference.rename, h.1, Expr.rename_congr value h.2]
  | call callee arguments line =>
    simp only [Expr.ids, List.forall_mem_append] at h
    simp only [Expr.rename, Expr.rename_congr callee h.1, Expr.renameAll_congr arguments h.2]

lemma Expr.renameAll_congr (values : List Expr) (h : ∀ i ∈ Expr.idsAll values, ρ i = σ i) :
    Expr.renameAll ρ values = Expr.renameAll σ values := by
  cases values with
  | nil => rfl
  | cons value rest =>
    simp only [Expr.idsAll, List.forall_mem_append] at h
    simp only [Expr.renameAll, Expr.rename_congr value h.1, Expr.renameAll_congr rest h.2]

end

lemma Expr.map_rename_congr (value : Option Expr)
    (h : ∀ i ∈ value.elim [] Expr.ids, ρ i = σ i) :
    value.map (Expr.rename ρ) = value.map (Expr.rename σ) := by
  cases value with
  | none => rfl
  | some value => exact congrArg some (value.rename_congr h)

mutual

lemma Stmt.rename_congr (stated : Stmt) (h : ∀ i ∈ stated.ids, ρ i = σ i) :
    stated.rename ρ = stated.rename σ := by
  cases stated with
  | expression value | print _ value => simp only [Stmt.rename, Expr.rename_congr value h]
  | varDecl _ initial | ret _ initial => simp only [Stmt.rename, Expr.map_rename_congr initial h]
  | functionDecl decl => simp only [Stmt.rename, FunctionDecl.rename_congr decl h]
  | classDecl decl =>
    obtain ⟨name, superclass, methods⟩ := decl
    simp only [Stmt.ids, ClassDecl.ids, List.forall_mem_append] at h
    simp only [Stmt.rename, ClassDecl.rename, FunctionDecl.renameAll_congr methods h.2]
    cases superclass with
    | none => rfl
    | some parent =>
      have hp := h.1 parent.id (by simp)
      simp only [Option.map_some, Reference.rename, hp]
  | block body => simp only [Stmt.rename, Stmt.renameAll_congr body h]
  | ifElse condition thenBranch elseBranch =>
    cases elseBranch with
    | none =>
      simp only [Stmt.ids, List.forall_mem_append] at h
      simp only [Stmt.rename, Expr.rename_congr condition h.1, Stmt.rename_congr thenBranch h.2]
    | some elseBranch =>
      simp only [Stmt.ids, List.forall_mem_append] at h
      simp only [Stmt.rename, Expr.rename_congr condition h.1, Stmt.rename_congr thenBranch h.2.1,
        Stmt.rename_congr elseBranch h.2.2]
  | whileLoop condition body =>
    simp only [Stmt.ids, List.forall_mem_append] at h
    simp only [Stmt.rename, Expr.rename_congr condition h.1, Stmt.rename_congr body h.2]

lemma Stmt.renameAll_congr (body : List Stmt) (h : ∀ i ∈ Stmt.idsAll body, ρ i = σ i) :
    Stmt.renameAll ρ body = Stmt.renameAll σ body := by
  cases body with
  | nil => rfl
  | cons stated rest =>
    simp only [Stmt.idsAll, List.forall_mem_append] at h
    simp only [Stmt.renameAll, Stmt.rename_congr stated h.1, Stmt.renameAll_congr rest h.2]

lemma FunctionDecl.rename_congr (decl : FunctionDecl) (h : ∀ i ∈ decl.ids, ρ i = σ i) :
    decl.rename ρ = decl.rename σ := by
  obtain ⟨name, params, body⟩ := decl
  simp only [FunctionDecl.rename, Stmt.renameAll_congr body h]

lemma FunctionDecl.renameAll_congr (decls : List FunctionDecl)
    (h : ∀ i ∈ FunctionDecl.idsAll decls, ρ i = σ i) :
    FunctionDecl.renameAll ρ decls = FunctionDecl.renameAll σ decls := by
  cases decls with
  | nil => rfl
  | cons decl rest =>
    simp only [FunctionDecl.idsAll, List.forall_mem_append] at h
    simp only [FunctionDecl.renameAll, FunctionDecl.rename_congr decl h.1,
      FunctionDecl.renameAll_congr rest h.2]

end

end Lox
