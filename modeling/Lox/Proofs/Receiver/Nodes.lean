import Lox.Eval.Evaluate
import Lox.Proofs.Machine.Methods
import Lox.Proofs.Receiver.Evaluate

/-! What `this` and `super` mean in the code of a class: the receiver that the code runs for, and the
class that the name of its superclass came to. -/

namespace Lox

mutual

/-- The expressions in an expression, itself among them. -/
def Expr.nodes : Expr → List Expr
  | .literal value => [.literal value]
  | .grouping inner => .grouping inner :: inner.nodes
  | .unary op line operand => .unary op line operand :: operand.nodes
  | .binary op line left right => .binary op line left right :: (left.nodes ++ right.nodes)
  | .logical op line left right => .logical op line left right :: (left.nodes ++ right.nodes)
  | .read target => [.read target]
  | .assign target value => .assign target value :: value.nodes
  | .call callee arguments line =>
    .call callee arguments line :: (callee.nodes ++ Expr.nodesAll arguments)
  | .get object property => .get object property :: object.nodes
  | .set object property value => .set object property value :: (object.nodes ++ value.nodes)
  | .this keyword => [.this keyword]
  | .super keyword method => [.super keyword method]

def Expr.nodesAll : List Expr → List Expr
  | [] => []
  | value :: rest => value.nodes ++ Expr.nodesAll rest

end

def Expr.nodesOption (value : Option Expr) : List Expr :=
  value.elim [] Expr.nodes

mutual

/-- The expressions in a statement and in the functions in it, but not in the methods of its classes:
those run for other receivers. -/
def Stmt.nodes : Stmt → List Expr
  | .expression value | .print _ value => value.nodes
  | .varDecl _ value | .ret _ value => Expr.nodesOption value
  | .functionDecl decl => decl.nodes
  | .classDecl _ => []
  | .block body => Stmt.nodesAll body
  | .ifElse condition thenBranch none => condition.nodes ++ thenBranch.nodes
  | .ifElse condition thenBranch (some elseBranch) =>
    condition.nodes ++ (thenBranch.nodes ++ elseBranch.nodes)
  | .whileLoop condition body => condition.nodes ++ body.nodes

def Stmt.nodesAll : List Stmt → List Expr
  | [] => []
  | stated :: rest => stated.nodes ++ Stmt.nodesAll rest

def FunctionDecl.nodes : FunctionDecl → List Expr
  | ⟨_, _, body⟩ => Stmt.nodesAll body

end

/-- The expressions of which the class is the innermost one around them. -/
def ClassDecl.nodes (decl : ClassDecl) : List Expr :=
  decl.methods.flatMap FunctionDecl.nodes

lemma Expr.mem_nodes (node : Expr) : node ∈ node.nodes := by
  cases node <;> simp [nodes]

lemma FunctionDecl.nodes_eq (decl : FunctionDecl) : decl.nodes = Stmt.nodesAll decl.body := by
  cases decl
  rfl

lemma ClassDecl.nodes_subset {decl : ClassDecl} {method : FunctionDecl} (h : method ∈ decl.methods) :
    method.nodes ⊆ decl.nodes :=
  fun _ hnode => List.mem_flatMap.mpr ⟨method, h, hnode⟩

/-- The expressions are in the class of the receiver for whom they are evaluated, if there is one. -/
def Owns (receiver : Option Receiver) (nodes : List Expr) : Prop :=
  ∀ r, receiver = some r → nodes ⊆ r.made.decl.nodes

lemma Owns.mono {receiver : Option Receiver} {nodes nodes' : List Expr} (h : Owns receiver nodes)
    (hsub : nodes' ⊆ nodes) : Owns receiver nodes' :=
  fun r hr => List.Subset.trans hsub (h r hr)

lemma Owns.both {receiver : Option Receiver} {node : Expr} {left right : List Expr}
    (h : Owns receiver (node :: (left ++ right))) : Owns receiver left ∧ Owns receiver right :=
  ⟨h.mono (List.subset_cons_of_subset _ (List.subset_append_left ..)),
    h.mono (List.subset_cons_of_subset _ (List.subset_append_right ..))⟩

lemma owns_none (nodes : List Expr) : Owns none nodes := nofun

/-- `this` evaluates to the instance of the receiver, and `super` to the first method of the name from
the class upward that the name of the superclass came to when the class of the receiver was made, bound
to that instance; if there is none, it is an undefined property. -/
structure Occasion.Means (o : Occasion) : Prop where
  owned : Owns o.receiver [o.node]
  this : ∀ keyword, o.node = .this keyword → ∃ r, o.receiver = some r ∧
    ∀ fuel, outcome (evaluate (fuel + 1) o.node) o.machine = (.ok (.instanceAt r.self), o.machine)
  super : ∀ keyword method, o.node = .super keyword method → ∃ r parent, o.receiver = some r ∧
    r.made.superclass = some parent ∧ o.machine.super? keyword = some (parent, r.self) ∧
    (∀ owner found, o.machine.Finds method.text parent owner found → ∀ fuel,
      outcome (evaluate (fuel + 1) o.node) o.machine =
        outcome (Run.boundValue found r.self) o.machine) ∧
    ((∀ owner found, ¬ o.machine.Finds method.text parent owner found) → ∀ fuel,
      outcome (evaluate (fuel + 1) o.node) o.machine =
        (.error (.error ⟨.undefinedProperty method.text, method.line⟩), o.machine))

namespace Machine

variable {m : Machine} {keyword : Reference} {parent : ClassRef} {self : InstanceRef}

lemma outcome_getSuper_of_finds (hm : m.Closed) (hs : m.super? keyword = some (parent, self))
    {method : Name} {owner : ClassRef} {found : Closure} (hf : m.Finds method.text parent owner found) :
    outcome (Run.getSuper keyword method) m = outcome (Run.boundValue found self) m := by
  have hmethod := (method?_eq_some_iff hm).mpr ⟨owner, hf⟩
  simp only [Run.getSuper, outcome_bind, outcome_get, hs, Run.require, outcome_pure, hmethod]

lemma outcome_getSuper_of_not_finds (hm : m.Closed) (hs : m.super? keyword = some (parent, self))
    {method : Name} (hf : ∀ owner found, ¬ m.Finds method.text parent owner found) :
    outcome (Run.getSuper keyword method) m =
      (.error (.error ⟨.undefinedProperty method.text, method.line⟩), m) := by
  have hmethod := (method?_eq_none_iff hm).mpr hf
  simp only [Run.getSuper, outcome_bind, outcome_get, hs, Run.require, outcome_pure, hmethod, Run.fail,
    outcome_throw]

end Machine

end Lox
