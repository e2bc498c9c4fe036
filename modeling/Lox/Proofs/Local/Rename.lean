import Lox.Proofs.Scope.Declarations

/-! A local variable under another name: its declaration gets the name, and so do the uses that are
bound to it. Declarations are told from each other by their numbers in the order of the text. -/

namespace Lox

/-- For each scope, which declarations its names have. -/
abbrev Origins := List (Bindings Nat)

namespace Origins

def declare (n : Nat) (name : Name) : Origins → Origins
  | [] => []
  | scope :: outer => scope.insert name.text n :: outer

/-- Parameters are declared one after another. -/
def declareAll (n : Nat) : List Name → Origins → Origins
  | [], origins => origins
  | name :: names, origins => declareAll (n + 1) names (declare n name origins)

/-- The declaration in the nearest scope that has the name. -/
def find? (name : String) : Origins → Option Nat
  | [] => none
  | scope :: outer => (scope.get? name).or (find? name outer)

end Origins

/-- The scopes after a statement, if there are `n` declarations before it. -/
def Stmt.originsAfter (n : Nat) (origins : Origins) : Stmt → Origins
  | .varDecl name _ => origins.declare n name
  | .functionDecl decl => origins.declare n decl.name
  | .classDecl decl => origins.declare n decl.name
  | .ifElse _ thenBranch none => thenBranch.originsAfter n origins
  | .ifElse _ thenBranch (some elseBranch) =>
    elseBranch.originsAfter (n + (thenBranch.declarations true).length)
      (thenBranch.originsAfter n origins)
  | .whileLoop _ body => body.originsAfter n origins
  | .expression _ | .print .. | .block _ | .ret .. => origins

/-- Which declaration gets another name, and the name. -/
structure Renaming where
  number : Nat
  name : String

namespace Renaming

variable (r : Renaming)

def declared (n : Nat) (name : Name) : Name :=
  if n = r.number then { name with text := r.name } else name

def declaredAll (n : Nat) : List Name → List Name
  | [] => []
  | name :: names => r.declared n name :: declaredAll (n + 1) names

/-- A use is renamed if it is bound to the declaration. -/
def reference (origins : Origins) (target : Reference) : Reference :=
  if origins.find? target.name.text = some r.number then { target with name.text := r.name }
  else target

end Renaming

variable (r : Renaming)

mutual

def Expr.renameLocal (origins : Origins) : Expr → Expr
  | .literal value => .literal value
  | .grouping inner => .grouping (inner.renameLocal origins)
  | .unary op line operand => .unary op line (operand.renameLocal origins)
  | .binary op line left right =>
    .binary op line (left.renameLocal origins) (right.renameLocal origins)
  | .logical op line left right =>
    .logical op line (left.renameLocal origins) (right.renameLocal origins)
  | .read target => .read (r.reference origins target)
  | .assign target value => .assign (r.reference origins target) (value.renameLocal origins)
  | .call callee arguments line =>
    .call (callee.renameLocal origins) (Expr.renameLocalAll origins arguments) line
  | .get object property => .get (object.renameLocal origins) property
  | .set object property value =>
    .set (object.renameLocal origins) property (value.renameLocal origins)
  | .this keyword => .this keyword
  | .super keyword method => .super keyword method

def Expr.renameLocalAll (origins : Origins) : List Expr → List Expr
  | [] => []
  | value :: rest => value.renameLocal origins :: Expr.renameLocalAll origins rest

end

mutual

/-- A statement with `n` declarations before it, in scopes whose names have the given ones. -/
def Stmt.renameLocal (n : Nat) (origins : Origins) : Stmt → Stmt
  | .expression value => .expression (value.renameLocal r origins)
  | .print line value => .print line (value.renameLocal r origins)
  | .varDecl name initial =>
    .varDecl (r.declared n name) (initial.map (Expr.renameLocal r (origins.declare n name)))
  | .functionDecl decl =>
    .functionDecl (decl.renameLocal (n + 1) (origins.declare n decl.name))
  | .classDecl decl => .classDecl (decl.renameLocal (n + 1) (origins.declare n decl.name))
  | .block body => .block (Stmt.renameLocalAll n (∅ :: origins) body)
  | .ifElse condition thenBranch none =>
    .ifElse (condition.renameLocal r origins) (thenBranch.renameLocal n origins) none
  | .ifElse condition thenBranch (some elseBranch) =>
    .ifElse (condition.renameLocal r origins) (thenBranch.renameLocal n origins)
      (some (elseBranch.renameLocal (n + (thenBranch.declarations true).length)
        (thenBranch.originsAfter n origins)))
  | .whileLoop condition body =>
    .whileLoop (condition.renameLocal r origins) (body.renameLocal n origins)
  | .ret keyword value => .ret keyword (value.map (Expr.renameLocal r origins))

def Stmt.renameLocalAll (n : Nat) (origins : Origins) : List Stmt → List Stmt
  | [] => []
  | stated :: rest =>
    stated.renameLocal n origins ::
      Stmt.renameLocalAll (n + (stated.declarations true).length) (stated.originsAfter n origins) rest

def FunctionDecl.renameLocal (n : Nat) (origins : Origins) : FunctionDecl → FunctionDecl
  | ⟨name, params, body⟩ =>
    ⟨name, r.declaredAll n params,
      Stmt.renameLocalAll (n + params.length) (Origins.declareAll n params (∅ :: origins)) body⟩

/-- A class whose name is in scope. The scopes around its methods have no variables. -/
def ClassDecl.renameLocal (n : Nat) (origins : Origins) : ClassDecl → ClassDecl
  | ⟨name, none, methods⟩ =>
    ⟨name, none, FunctionDecl.renameLocalAll n (∅ :: origins) methods⟩
  | ⟨name, some superclass, methods⟩ =>
    ⟨name, some (r.reference origins superclass),
      FunctionDecl.renameLocalAll n (∅ :: ∅ :: origins) methods⟩

def FunctionDecl.renameLocalAll (n : Nat) (origins : Origins) : List FunctionDecl → List FunctionDecl
  | [] => []
  | method :: rest =>
    method.renameLocal n origins ::
      FunctionDecl.renameLocalAll (n + method.declarations.length) origins rest

end

/-- What an expression refers to: a variable, or by a keyword an instance or a superclass. -/
def Expr.reference? : Expr → Option Reference
  | .read target | .assign target _ | .this target | .super target _ => some target
  | _ => none

def Event.reference? : Event → Option Reference
  | visit v => v.node.reference?
  | _ => none

def Program.references (program : Program) : List Reference :=
  (Program.events program).filterMap Event.reference?

/-- The program with another name for a local variable or a parameter. -/
def Program.renameLocal (program : Program) : Program :=
  Stmt.renameLocalAll r 0 [] program

lemma Stmt.length_declarations (isLocal : Bool) (stated : Stmt) :
    (stated.declarations isLocal).length = (stated.declarations true).length := by
  cases stated with
  | ifElse condition thenBranch elseBranch =>
    cases elseBranch with
    | none => exact Stmt.length_declarations isLocal thenBranch
    | some elseBranch =>
      simp only [Stmt.declarations, List.length_append, Stmt.length_declarations isLocal thenBranch,
        Stmt.length_declarations isLocal elseBranch]
  | whileLoop condition body => exact Stmt.length_declarations isLocal body
  | expression | print | varDecl | functionDecl | classDecl | block | ret => rfl

namespace Renaming

variable {r}

def declaration (r : Renaming) (n : Nat) (d : Declaration) : Declaration :=
  if n = r.number ∧ d.isVariable = true then { d with name := r.name } else d

def declarations (r : Renaming) (n : Nat) : List Declaration → List Declaration
  | [] => []
  | d :: ds => r.declaration n d :: declarations r (n + 1) ds

lemma declarations_append (n : Nat) (ds es : List Declaration) :
    r.declarations n (ds ++ es) = r.declarations n ds ++ r.declarations (n + ds.length) es := by
  induction ds generalizing n with
  | nil => rfl
  | cons d ds ih =>
    simp only [List.cons_append, declarations, ih, List.length_cons, Nat.add_assoc, Nat.add_comm 1]

lemma getElem?_declarations (n : Nat) (ds : List Declaration) (i : Nat) :
    (r.declarations n ds)[i]? = ds[i]?.map (r.declaration (n + i)) := by
  induction ds generalizing n i with
  | nil => rfl
  | cons d ds ih =>
    cases i with
    | zero => rfl
    | succ i =>
      rw [declarations, List.getElem?_cons_succ, List.getElem?_cons_succ, ih]
      simp only [Nat.add_assoc, Nat.add_comm 1]

lemma declaration_variable (n : Nat) (name : Name) (isLocal : Bool) :
    r.declaration n ⟨name.text, isLocal, true⟩ = ⟨(r.declared n name).text, isLocal, true⟩ := by
  unfold declaration declared
  split <;> split <;> simp_all

lemma declaration_title (n : Nat) (name : String) (isLocal : Bool) :
    r.declaration n ⟨name, isLocal, false⟩ = ⟨name, isLocal, false⟩ := by
  simp [declaration]

lemma declarations_params (n : Nat) (params : List Name) :
    r.declarations n (params.map fun param => ⟨param.text, true, true⟩) =
      (r.declaredAll n params).map fun param => ⟨param.text, true, true⟩ := by
  induction params generalizing n with
  | nil => rfl
  | cons param params ih =>
    simp only [List.map_cons, declarations, declaredAll, declaration_variable, ih]

end Renaming

open Renaming

variable {r}

@[simp] lemma FunctionDecl.name_renameLocal (n : Nat) (origins : Origins) (decl : FunctionDecl) :
    (decl.renameLocal r n origins).name = decl.name := by
  cases decl
  rfl

@[simp] lemma FunctionDecl.isInitializer_renameLocal (n : Nat) (origins : Origins)
    (decl : FunctionDecl) : (decl.renameLocal r n origins).isInitializer = decl.isInitializer := by
  cases decl
  rfl

@[simp] lemma ClassDecl.name_renameLocal (n : Nat) (origins : Origins) (decl : ClassDecl) :
    (decl.renameLocal r n origins).name = decl.name := by
  obtain ⟨_, _ | _, _⟩ := decl <;> rfl

mutual

lemma Stmt.declarations_renameLocal (n : Nat) (origins : Origins) (isLocal : Bool) (stated : Stmt) :
    (stated.renameLocal r n origins).declarations isLocal =
      r.declarations n (stated.declarations isLocal) := by
  cases stated with
  | expression | print | ret => rfl
  | varDecl name initial => exact congrArg (· :: []) (declaration_variable n name isLocal).symm
  | functionDecl decl =>
    simp only [Stmt.renameLocal, Stmt.declarations, FunctionDecl.name_renameLocal, declarations,
      declaration_title, FunctionDecl.declarations_renameLocal _ _ decl]
  | classDecl decl =>
    simp only [Stmt.renameLocal, Stmt.declarations, ClassDecl.name_renameLocal, declarations,
      declaration_title]
    obtain ⟨name, _ | superclass, methods⟩ := decl <;>
      exact congrArg (_ :: ·) (FunctionDecl.declarationsAll_renameLocalAll _ _ methods)
  | block body => exact Stmt.declarationsAll_renameLocalAll n _ true body
  | ifElse condition thenBranch elseBranch =>
    cases elseBranch with
    | none => exact Stmt.declarations_renameLocal n origins isLocal thenBranch
    | some elseBranch =>
      simp only [Stmt.renameLocal, Stmt.declarations, declarations_append,
        Stmt.declarations_renameLocal _ _ isLocal thenBranch,
        Stmt.declarations_renameLocal _ _ isLocal elseBranch,
        Stmt.length_declarations isLocal thenBranch]
  | whileLoop condition body => exact Stmt.declarations_renameLocal n origins isLocal body

lemma Stmt.declarationsAll_renameLocalAll (n : Nat) (origins : Origins) (isLocal : Bool)
    (body : List Stmt) :
    Stmt.declarationsAll isLocal (Stmt.renameLocalAll r n origins body) =
      r.declarations n (Stmt.declarationsAll isLocal body) := by
  cases body with
  | nil => rfl
  | cons stated rest =>
    simp only [Stmt.renameLocalAll, Stmt.declarationsAll, declarations_append,
      Stmt.declarations_renameLocal _ _ isLocal stated,
      Stmt.declarationsAll_renameLocalAll _ _ isLocal rest,
      Stmt.length_declarations isLocal stated]

lemma FunctionDecl.declarations_renameLocal (n : Nat) (origins : Origins) (decl : FunctionDecl) :
    (decl.renameLocal r n origins).declarations = r.declarations n decl.declarations := by
  obtain ⟨name, params, body⟩ := decl
  simp only [FunctionDecl.renameLocal, FunctionDecl.declarations, declarations_append,
    declarations_params, Stmt.declarationsAll_renameLocalAll _ _ true body, List.length_map]

lemma FunctionDecl.declarationsAll_renameLocalAll (n : Nat) (origins : Origins)
    (methods : List FunctionDecl) :
    FunctionDecl.declarationsAll (FunctionDecl.renameLocalAll r n origins methods) =
      r.declarations n (FunctionDecl.declarationsAll methods) := by
  cases methods with
  | nil => rfl
  | cons method rest =>
    simp only [FunctionDecl.renameLocalAll, FunctionDecl.declarationsAll, declarations_append,
      FunctionDecl.declarations_renameLocal _ _ method,
      FunctionDecl.declarationsAll_renameLocalAll _ _ rest]

end

end Lox
