import Lox.Proofs.Grammar.Proper
import Lox.Proofs.Identity.Renaming

/-! Trees with other lines, and with other names for variables. What names a function, a class or a
property is kept. -/

namespace Lox

/-- Other lines for those of a tree, and other names for its variables. -/
structure Labels where
  line : Nat → Nat
  name : String → String

namespace Labels

def same : Labels :=
  ⟨id, id⟩

def andThen (l l' : Labels) : Labels :=
  ⟨l'.line ∘ l.line, l'.name ∘ l.name⟩

def title (l : Labels) (name : Name) : Name :=
  { name with line := l.line name.line }

def named (l : Labels) (name : Name) : Name :=
  ⟨l.name name.text, l.line name.line⟩

def reference (l : Labels) (target : Reference) : Reference :=
  { target with name := l.named target.name }

/-- The names that stand for an instance and a superclass are theirs alone. -/
structure Plain (l : Labels) : Prop where
  this : ∀ name, l.name name = Scope.thisName ↔ name = Scope.thisName
  super : ∀ name, l.name name = Scope.superName ↔ name = Scope.superName

lemma Plain.isPlain_iff {l : Labels} (h : l.Plain) (name : String) :
    Scope.IsPlain (l.name name) ↔ Scope.IsPlain name := by
  simp only [Scope.IsPlain, ne_eq, h.this, h.super]

end Labels

variable (l l' : Labels)

mutual

def Expr.relabel : Expr → Expr
  | .literal value => .literal value
  | .grouping inner => .grouping inner.relabel
  | .unary op line operand => .unary op (l.line line) operand.relabel
  | .binary op line left right => .binary op (l.line line) left.relabel right.relabel
  | .logical op line left right => .logical op (l.line line) left.relabel right.relabel
  | .read target => .read (l.reference target)
  | .assign target value => .assign (l.reference target) value.relabel
  | .call callee arguments line => .call callee.relabel (Expr.relabelAll arguments) (l.line line)
  | .get object property => .get object.relabel (l.title property)
  | .set object property value => .set object.relabel (l.title property) value.relabel
  | .this keyword => .this (l.reference keyword)
  | .super keyword method => .super (l.reference keyword) (l.title method)

def Expr.relabelAll : List Expr → List Expr
  | [] => []
  | value :: rest => value.relabel :: Expr.relabelAll rest

end

mutual

def Stmt.relabel : Stmt → Stmt
  | .expression value => .expression (value.relabel l)
  | .print line value => .print (l.line line) (value.relabel l)
  | .varDecl name initial => .varDecl (l.named name) (initial.map (Expr.relabel l))
  | .functionDecl decl => .functionDecl decl.relabel
  | .classDecl decl => .classDecl decl.relabel
  | .block body => .block (Stmt.relabelAll body)
  | .ifElse condition thenBranch none => .ifElse (condition.relabel l) thenBranch.relabel none
  | .ifElse condition thenBranch (some elseBranch) =>
    .ifElse (condition.relabel l) thenBranch.relabel (some elseBranch.relabel)
  | .whileLoop condition body => .whileLoop (condition.relabel l) body.relabel
  | .ret keyword value => .ret (l.title keyword) (value.map (Expr.relabel l))

def Stmt.relabelAll : List Stmt → List Stmt
  | [] => []
  | stated :: rest => stated.relabel :: Stmt.relabelAll rest

def FunctionDecl.relabel : FunctionDecl → FunctionDecl
  | ⟨name, params, body⟩ => ⟨l.title name, params.map l.named, Stmt.relabelAll body⟩

def FunctionDecl.relabelAll : List FunctionDecl → List FunctionDecl
  | [] => []
  | decl :: rest => decl.relabel :: FunctionDecl.relabelAll rest

def ClassDecl.relabel : ClassDecl → ClassDecl
  | ⟨name, superclass, methods⟩ =>
    ⟨l.title name, superclass.map l.reference, FunctionDecl.relabelAll methods⟩

end

lemma Expr.relabelAll_eq_map (values : List Expr) :
    Expr.relabelAll l values = values.map (Expr.relabel l) := by
  induction values with
  | nil => rfl
  | cons value rest ih => simp [Expr.relabelAll, ih]

lemma Stmt.relabelAll_eq_map (body : List Stmt) :
    Stmt.relabelAll l body = body.map (Stmt.relabel l) := by
  induction body with
  | nil => rfl
  | cons stated rest ih => simp [Stmt.relabelAll, ih]

lemma FunctionDecl.relabelAll_eq_map (decls : List FunctionDecl) :
    FunctionDecl.relabelAll l decls = decls.map (FunctionDecl.relabel l) := by
  induction decls with
  | nil => rfl
  | cons decl rest ih => simp [FunctionDecl.relabelAll, ih]

@[simp] lemma FunctionDecl.name_relabel (decl : FunctionDecl) :
    (decl.relabel l).name = l.title decl.name := by
  cases decl
  rfl

@[simp] lemma FunctionDecl.params_relabel (decl : FunctionDecl) :
    (decl.relabel l).params = decl.params.map l.named := by
  cases decl
  rfl

@[simp] lemma FunctionDecl.body_relabel (decl : FunctionDecl) :
    (decl.relabel l).body = Stmt.relabelAll l decl.body := by
  cases decl
  rfl

@[simp] lemma FunctionDecl.isInitializer_relabel (decl : FunctionDecl) :
    (decl.relabel l).isInitializer = decl.isInitializer := by
  cases decl
  rfl

@[simp] lemma ClassDecl.name_relabel (decl : ClassDecl) :
    (decl.relabel l).name = l.title decl.name := by
  cases decl
  rfl

@[simp] lemma Stmt.isDeclaration_relabel (stated : Stmt) :
    (stated.relabel l).isDeclaration = stated.isDeclaration := by
  rcases stated with _ | _ | _ | _ | _ | _ | ⟨_, _, _ | _⟩ | _ | _ <;> rfl

section Twice

mutual

lemma Expr.relabel_relabel (value : Expr) :
    (value.relabel l).relabel l' = value.relabel (l.andThen l') := by
  cases value with
  | literal | read | this | super => rfl
  | grouping inner => simp only [Expr.relabel, Expr.relabel_relabel inner]
  | unary _ _ inner | get inner _ =>
    simp only [Expr.relabel, Expr.relabel_relabel inner]
    rfl
  | binary _ _ left right | logical _ _ left right | set left _ right =>
    simp only [Expr.relabel, Expr.relabel_relabel left, Expr.relabel_relabel right]
    rfl
  | assign target value =>
    simp only [Expr.relabel, Expr.relabel_relabel value]
    rfl
  | call callee arguments line =>
    simp only [Expr.relabel, Expr.relabel_relabel callee, Expr.relabelAll_relabelAll arguments]
    rfl

lemma Expr.relabelAll_relabelAll (values : List Expr) :
    Expr.relabelAll l' (Expr.relabelAll l values) = Expr.relabelAll (l.andThen l') values := by
  cases values with
  | nil => rfl
  | cons value rest =>
    simp only [Expr.relabelAll, Expr.relabel_relabel value, Expr.relabelAll_relabelAll rest]

end

lemma Expr.map_relabel_relabel (value : Option Expr) :
    (value.map (Expr.relabel l)).map (Expr.relabel l') = value.map (Expr.relabel (l.andThen l')) := by
  cases value <;> simp [Expr.relabel_relabel]

mutual

lemma Stmt.relabel_relabel (stated : Stmt) :
    (stated.relabel l).relabel l' = stated.relabel (l.andThen l') := by
  cases stated with
  | expression value => simp only [Stmt.relabel, Expr.relabel_relabel]
  | print _ value =>
    simp only [Stmt.relabel, Expr.relabel_relabel]
    rfl
  | varDecl _ initial | ret _ initial =>
    simp only [Stmt.relabel, Expr.map_relabel_relabel]
    rfl
  | functionDecl decl => simp only [Stmt.relabel, FunctionDecl.relabel_relabel decl]
  | classDecl decl =>
    obtain ⟨name, superclass, methods⟩ := decl
    simp only [Stmt.relabel, ClassDecl.relabel, FunctionDecl.relabelAll_relabelAll methods]
    cases superclass <;> rfl
  | block body => simp only [Stmt.relabel, Stmt.relabelAll_relabelAll body]
  | ifElse condition thenBranch elseBranch =>
    cases elseBranch with
    | none => simp only [Stmt.relabel, Expr.relabel_relabel, Stmt.relabel_relabel thenBranch]
    | some elseBranch =>
      simp only [Stmt.relabel, Expr.relabel_relabel, Stmt.relabel_relabel thenBranch,
        Stmt.relabel_relabel elseBranch]
  | whileLoop condition body =>
    simp only [Stmt.relabel, Expr.relabel_relabel, Stmt.relabel_relabel body]

lemma Stmt.relabelAll_relabelAll (body : List Stmt) :
    Stmt.relabelAll l' (Stmt.relabelAll l body) = Stmt.relabelAll (l.andThen l') body := by
  cases body with
  | nil => rfl
  | cons stated rest =>
    simp only [Stmt.relabelAll, Stmt.relabel_relabel stated, Stmt.relabelAll_relabelAll rest]

lemma FunctionDecl.relabel_relabel (decl : FunctionDecl) :
    (decl.relabel l).relabel l' = decl.relabel (l.andThen l') := by
  obtain ⟨name, params, body⟩ := decl
  simp only [FunctionDecl.relabel, Stmt.relabelAll_relabelAll body, List.map_map]
  rfl

lemma FunctionDecl.relabelAll_relabelAll (decls : List FunctionDecl) :
    FunctionDecl.relabelAll l' (FunctionDecl.relabelAll l decls) =
      FunctionDecl.relabelAll (l.andThen l') decls := by
  cases decls with
  | nil => rfl
  | cons decl rest =>
    simp only [FunctionDecl.relabelAll, FunctionDecl.relabel_relabel decl,
      FunctionDecl.relabelAll_relabelAll rest]

end

end Twice

section Same

mutual

lemma Expr.relabel_same (value : Expr) : value.relabel .same = value := by
  cases value with
  | literal | read | this | super => rfl
  | grouping inner => simp only [Expr.relabel, Expr.relabel_same inner]
  | unary _ _ inner | get inner _ =>
    simp only [Expr.relabel, Expr.relabel_same inner]
    rfl
  | binary _ _ left right | logical _ _ left right | set left _ right =>
    simp only [Expr.relabel, Expr.relabel_same left, Expr.relabel_same right]
    rfl
  | assign target value =>
    simp only [Expr.relabel, Expr.relabel_same value]
    rfl
  | call callee arguments line =>
    simp only [Expr.relabel, Expr.relabel_same callee, Expr.relabelAll_same arguments]
    rfl

lemma Expr.relabelAll_same (values : List Expr) : Expr.relabelAll .same values = values := by
  cases values with
  | nil => rfl
  | cons value rest => simp only [Expr.relabelAll, Expr.relabel_same value, Expr.relabelAll_same rest]

end

lemma Expr.map_relabel_same (value : Option Expr) : value.map (Expr.relabel .same) = value := by
  cases value <;> simp [Expr.relabel_same]

mutual

lemma Stmt.relabel_same (stated : Stmt) : stated.relabel .same = stated := by
  cases stated with
  | expression value => simp only [Stmt.relabel, Expr.relabel_same]
  | print _ value =>
    simp only [Stmt.relabel, Expr.relabel_same]
    rfl
  | varDecl _ initial | ret _ initial =>
    simp only [Stmt.relabel, Expr.map_relabel_same]
    rfl
  | functionDecl decl => simp only [Stmt.relabel, FunctionDecl.relabel_same decl]
  | classDecl decl =>
    obtain ⟨name, superclass, methods⟩ := decl
    simp only [Stmt.relabel, ClassDecl.relabel, FunctionDecl.relabelAll_same methods]
    cases superclass <;> rfl
  | block body => simp only [Stmt.relabel, Stmt.relabelAll_same body]
  | ifElse condition thenBranch elseBranch =>
    cases elseBranch with
    | none => simp only [Stmt.relabel, Expr.relabel_same, Stmt.relabel_same thenBranch]
    | some elseBranch =>
      simp only [Stmt.relabel, Expr.relabel_same, Stmt.relabel_same thenBranch,
        Stmt.relabel_same elseBranch]
  | whileLoop condition body => simp only [Stmt.relabel, Expr.relabel_same, Stmt.relabel_same body]

lemma Stmt.relabelAll_same (body : List Stmt) : Stmt.relabelAll .same body = body := by
  cases body with
  | nil => rfl
  | cons stated rest => simp only [Stmt.relabelAll, Stmt.relabel_same stated, Stmt.relabelAll_same rest]

lemma FunctionDecl.relabel_same (decl : FunctionDecl) : decl.relabel .same = decl := by
  obtain ⟨name, params, body⟩ := decl
  have hparams : params.map (Labels.named .same) = params := List.map_id params
  simp only [FunctionDecl.relabel, Stmt.relabelAll_same body, hparams]
  rfl

lemma FunctionDecl.relabelAll_same (decls : List FunctionDecl) :
    FunctionDecl.relabelAll .same decls = decls := by
  cases decls with
  | nil => rfl
  | cons decl rest =>
    simp only [FunctionDecl.relabelAll, FunctionDecl.relabel_same decl,
      FunctionDecl.relabelAll_same rest]

end

end Same

section Ids

variable {l}

mutual

lemma Expr.ids_relabel (value : Expr) : (value.relabel l).ids = value.ids := by
  cases value with
  | literal | read | this | super => rfl
  | grouping inner | unary _ _ inner | get inner _ =>
    simp only [Expr.relabel, Expr.ids, Expr.ids_relabel inner]
  | binary _ _ left right | logical _ _ left right | set left _ right =>
    simp only [Expr.relabel, Expr.ids, Expr.ids_relabel left, Expr.ids_relabel right]
  | assign target value =>
    simp only [Expr.relabel, Expr.ids, Expr.ids_relabel value]
    rfl
  | call callee arguments line =>
    simp only [Expr.relabel, Expr.ids, Expr.ids_relabel callee, Expr.idsAll_relabelAll arguments]

lemma Expr.idsAll_relabelAll (values : List Expr) :
    Expr.idsAll (Expr.relabelAll l values) = Expr.idsAll values := by
  cases values with
  | nil => rfl
  | cons value rest =>
    simp only [Expr.relabelAll, Expr.idsAll, Expr.ids_relabel value, Expr.idsAll_relabelAll rest]

end

lemma Expr.ids_map_relabel (value : Option Expr) :
    (value.map (Expr.relabel l)).elim [] Expr.ids = value.elim [] Expr.ids := by
  cases value <;> simp [Expr.ids_relabel]

mutual

lemma Stmt.ids_relabel (stated : Stmt) : (stated.relabel l).ids = stated.ids := by
  cases stated with
  | expression value | print _ value => simp only [Stmt.relabel, Stmt.ids, Expr.ids_relabel]
  | varDecl _ initial | ret _ initial => simp only [Stmt.relabel, Stmt.ids, Expr.ids_map_relabel]
  | functionDecl decl => simp only [Stmt.relabel, Stmt.ids, FunctionDecl.ids_relabel decl]
  | classDecl decl =>
    obtain ⟨name, superclass, methods⟩ := decl
    simp only [Stmt.relabel, ClassDecl.relabel, Stmt.ids, ClassDecl.ids,
      FunctionDecl.idsAll_relabelAll methods]
    cases superclass <;> rfl
  | block body => simp only [Stmt.relabel, Stmt.ids, Stmt.idsAll_relabelAll body]
  | ifElse condition thenBranch elseBranch =>
    cases elseBranch with
    | none => simp only [Stmt.relabel, Stmt.ids, Expr.ids_relabel, Stmt.ids_relabel thenBranch]
    | some elseBranch =>
      simp only [Stmt.relabel, Stmt.ids, Expr.ids_relabel, Stmt.ids_relabel thenBranch,
        Stmt.ids_relabel elseBranch]
  | whileLoop condition body =>
    simp only [Stmt.relabel, Stmt.ids, Expr.ids_relabel, Stmt.ids_relabel body]

lemma Stmt.idsAll_relabelAll (body : List Stmt) :
    Stmt.idsAll (Stmt.relabelAll l body) = Stmt.idsAll body := by
  cases body with
  | nil => rfl
  | cons stated rest =>
    simp only [Stmt.relabelAll, Stmt.idsAll, Stmt.ids_relabel stated, Stmt.idsAll_relabelAll rest]

lemma FunctionDecl.ids_relabel (decl : FunctionDecl) : (decl.relabel l).ids = decl.ids := by
  obtain ⟨name, params, body⟩ := decl
  simp only [FunctionDecl.relabel, FunctionDecl.ids, Stmt.idsAll_relabelAll body]

lemma FunctionDecl.idsAll_relabelAll (decls : List FunctionDecl) :
    FunctionDecl.idsAll (FunctionDecl.relabelAll l decls) = FunctionDecl.idsAll decls := by
  cases decls with
  | nil => rfl
  | cons decl rest =>
    simp only [FunctionDecl.relabelAll, FunctionDecl.idsAll, FunctionDecl.ids_relabel decl,
      FunctionDecl.idsAll_relabelAll rest]

end

end Ids

section Proper

variable {l}

mutual

lemma Expr.proper_relabel (h : l.Plain) (value : Expr) :
    (value.relabel l).Proper ↔ value.Proper := by
  cases value with
  | literal | read | super => exact Iff.rfl
  | this keyword => exact h.this _
  | grouping inner | unary _ _ inner | get inner _ => exact Expr.proper_relabel h inner
  | binary _ _ left right | logical _ _ left right | set left _ right =>
    exact and_congr (Expr.proper_relabel h left) (Expr.proper_relabel h right)
  | assign target value => exact and_congr (h.isPlain_iff _) (Expr.proper_relabel h value)
  | call callee arguments line =>
    exact and_congr (Expr.proper_relabel h callee) (Expr.properAll_relabelAll h arguments)

lemma Expr.properAll_relabelAll (h : l.Plain) (values : List Expr) :
    Expr.ProperAll (Expr.relabelAll l values) ↔ Expr.ProperAll values := by
  cases values with
  | nil => exact Iff.rfl
  | cons value rest =>
    exact and_congr (Expr.proper_relabel h value) (Expr.properAll_relabelAll h rest)

end

lemma Expr.properOption_map_relabel (h : l.Plain) (value : Option Expr) :
    Expr.ProperOption (value.map (Expr.relabel l)) ↔ Expr.ProperOption value := by
  cases value <;> simp [Expr.ProperOption, Expr.proper_relabel h]

mutual

lemma Stmt.proper_relabel (h : l.Plain) (stated : Stmt) :
    (stated.relabel l).Proper ↔ stated.Proper := by
  cases stated with
  | expression value | print _ value => exact Expr.proper_relabel h value
  | varDecl name initial =>
    exact and_congr (h.isPlain_iff _) (Expr.properOption_map_relabel h initial)
  | ret keyword value => exact Expr.properOption_map_relabel h value
  | functionDecl decl => exact FunctionDecl.proper_relabel h decl
  | classDecl decl =>
    obtain ⟨name, superclass, methods⟩ := decl
    exact and_congr Iff.rfl (FunctionDecl.properAll_relabelAll h methods)
  | block body => exact Stmt.properAll_relabelAll h body
  | ifElse condition thenBranch elseBranch =>
    cases elseBranch with
    | none =>
      simp only [Stmt.relabel, Stmt.Proper, Expr.proper_relabel h, Stmt.isDeclaration_relabel,
        Stmt.proper_relabel h thenBranch]
    | some elseBranch =>
      simp only [Stmt.relabel, Stmt.Proper, Expr.proper_relabel h, Stmt.isDeclaration_relabel,
        Stmt.proper_relabel h thenBranch, Stmt.proper_relabel h elseBranch]
  | whileLoop condition body =>
    simp only [Stmt.relabel, Stmt.Proper, Expr.proper_relabel h, Stmt.isDeclaration_relabel,
      Stmt.proper_relabel h body]

lemma Stmt.properAll_relabelAll (h : l.Plain) (body : List Stmt) :
    Stmt.ProperAll (Stmt.relabelAll l body) ↔ Stmt.ProperAll body := by
  cases body with
  | nil => exact Iff.rfl
  | cons stated rest =>
    exact and_congr (Stmt.proper_relabel h stated) (Stmt.properAll_relabelAll h rest)

lemma FunctionDecl.proper_relabel (h : l.Plain) (decl : FunctionDecl) :
    (decl.relabel l).Proper ↔ decl.Proper := by
  obtain ⟨name, params, body⟩ := decl
  refine and_congr Iff.rfl (and_congr ?_ (Stmt.properAll_relabelAll h body))
  simp only [List.forall_mem_map]
  exact forall₂_congr fun param _ => h.isPlain_iff param.text

lemma FunctionDecl.properAll_relabelAll (h : l.Plain) (decls : List FunctionDecl) :
    FunctionDecl.ProperAll (FunctionDecl.relabelAll l decls) ↔ FunctionDecl.ProperAll decls := by
  cases decls with
  | nil => exact Iff.rfl
  | cons decl rest =>
    exact and_congr (FunctionDecl.proper_relabel h decl) (FunctionDecl.properAll_relabelAll h rest)

end

end Proper

end Lox
