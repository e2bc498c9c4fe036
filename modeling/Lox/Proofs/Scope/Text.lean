import Lox.Scope.Resolve
import Mathlib.Data.List.Basic

/-! Where names are bound, told of the text of a program alone: what of it matters is where scopes begin
and end, and where names are declared and used. Nothing here keeps a stack. -/

namespace Lox

/-- A mark in the text of a program. -/
inductive Mark
  | opens
  | closes
  | declares (name : String)
  /-- An expression that uses a name. -/
  | uses (node : Expr)

mutual

def Expr.marks : Expr → List Mark
  | .literal _ => []
  | .grouping inner | .unary _ _ inner | .get inner _ => inner.marks
  | .binary _ _ left right | .logical _ _ left right | .set left _ right => left.marks ++ right.marks
  | .read target => [.uses (.read target)]
  | .assign target value => .uses (.assign target value) :: value.marks
  | .call callee arguments _ => callee.marks ++ Expr.marksAll arguments
  | .this keyword => [.uses (.this keyword)]
  | .super keyword method => [.uses (.super keyword method)]

def Expr.marksAll : List Expr → List Mark
  | [] => []
  | value :: rest => value.marks ++ Expr.marksAll rest

end

def Expr.marksOption (value : Option Expr) : List Mark :=
  value.elim [] Expr.marks

mutual

def Stmt.marks : Stmt → List Mark
  | .expression value | .print _ value => value.marks
  | .varDecl name initial => .declares name.text :: Expr.marksOption initial
  | .functionDecl decl => .declares decl.name.text :: decl.marks
  | .classDecl decl => .declares decl.name.text :: decl.marks
  | .block body => .opens :: (Stmt.marksAll body ++ [.closes])
  | .ifElse condition thenBranch none => condition.marks ++ thenBranch.marks
  | .ifElse condition thenBranch (some elseBranch) =>
    condition.marks ++ (thenBranch.marks ++ elseBranch.marks)
  | .whileLoop condition body => condition.marks ++ body.marks
  | .ret _ value => Expr.marksOption value

def Stmt.marksAll : List Stmt → List Mark
  | [] => []
  | stated :: rest => stated.marks ++ Stmt.marksAll rest

/-- The parameters of a function and its body are one scope. -/
def FunctionDecl.marks : FunctionDecl → List Mark
  | ⟨_, params, body⟩ =>
    .opens :: (params.map (fun param => .declares param.text) ++ (Stmt.marksAll body ++ [.closes]))

/-- A class is a scope with `this`, and outside of it there is one with `super` if the class has a
superclass, the name of which stands before both. -/
def ClassDecl.marks : ClassDecl → List Mark
  | ⟨_, none, methods⟩ =>
    .opens :: .declares Scope.thisName :: (FunctionDecl.marksAll methods ++ [.closes])
  | ⟨_, some superclass, methods⟩ =>
    .uses (.read superclass) :: .opens :: .declares Scope.superName :: .opens ::
      .declares Scope.thisName :: (FunctionDecl.marksAll methods ++ [.closes, .closes])

def FunctionDecl.marksAll : List FunctionDecl → List Mark
  | [] => []
  | decl :: rest => decl.marks ++ FunctionDecl.marksAll rest

end

def Program.marks (program : Program) : List Mark :=
  Stmt.marksAll program

namespace Mark

/-- How many scopes are left open behind a mark, if so many are before it. -/
def leaves (count : Nat) : Mark → Option Nat
  | opens => some (count + 1)
  | closes => if count = 0 then none else some (count - 1)
  | declares _ | uses _ => some count

/-- How many scopes are opened in a stretch of text and not closed in it; none if it closes one that was
opened before. -/
def unclosed? (marks : List Mark) : Option Nat :=
  marks.foldlM leaves 0

/-- Before a place, and in a scope around it, a name is declared; so many scopes are around the place
inside of that one. -/
def DeclaredAt (before : List Mark) (name : String) (distance : Nat) : Prop :=
  ∃ outer inner between, before = outer ++ opens :: (inner ++ declares name :: between) ∧
    unclosed? inner = some 0 ∧ unclosed? between = some distance

/-- So many scopes inside of the innermost one around a place in which a name is declared before it. -/
def BoundAt (before : List Mark) (name : String) (distance : Nat) : Prop :=
  DeclaredAt before name distance ∧ ∀ nearer < distance, ¬ DeclaredAt before name nearer

section Counting

variable {marks more : List Mark} {n k : Nat}

lemma unclosed?_append_one (mark : Mark) :
    unclosed? (marks ++ [mark]) = (unclosed? marks).bind (leaves · mark) := by
  simp [unclosed?, List.foldlM_append]

lemma leaves_add {mark : Mark} (h : leaves n mark = some k) (more : Nat) :
    leaves (n + more) mark = some (k + more) := by
  cases mark with
  | opens =>
    obtain rfl := Option.some.inj h
    exact congrArg some (Nat.add_right_comm n more 1)
  | closes =>
    rw [leaves] at h ⊢
    split at h
    · simp at h
    · obtain rfl := Option.some.inj h
      rw [if_neg (by omega)]
      exact congrArg some (by omega)
  | declares name | uses node =>
    obtain rfl := Option.some.inj h
    rfl

lemma foldlM_leaves_add (h : marks.foldlM leaves n = some k) (more : Nat) :
    marks.foldlM leaves (n + more) = some (k + more) := by
  induction marks generalizing n with
  | nil =>
    obtain rfl : n = k := by simpa using h
    rfl
  | cons mark rest ih =>
    obtain ⟨between, hmark, hrest⟩ := Option.bind_eq_some_iff.mp h
    exact Option.bind_eq_some_iff.mpr ⟨between + more, leaves_add hmark more, ih hrest⟩

lemma unclosed?_append (h : unclosed? marks = some n) (h' : unclosed? more = some k) :
    unclosed? (marks ++ more) = some (k + n) := by
  have hmore := foldlM_leaves_add h' n
  rw [Nat.zero_add] at hmore
  rw [unclosed?, List.foldlM_append]
  exact Option.bind_eq_some_iff.mpr ⟨n, h, hmore⟩

lemma unclosed?_ne_zero (h : unclosed? more = some k) :
    unclosed? (marks ++ opens :: more) ≠ some 0 := by
  rw [unclosed?, List.foldlM_append]
  intro hall
  obtain ⟨n, hmarks, hrest⟩ := Option.bind_eq_some_iff.mp hall
  have hmore := foldlM_leaves_add h (n + 1)
  rw [Nat.zero_add] at hmore
  have hzero := Option.some.inj (hmore.symm.trans hrest)
  omega

end Counting

section Declaring

variable {before : List Mark} {name : String} {distance : Nat}

/-- There is a scope around a place, with so many inside of it. -/
def EnclosedAt (before : List Mark) (distance : Nat) : Prop :=
  ∃ outer inner, before = outer ++ opens :: inner ∧ unclosed? inner = some distance

lemma enclosedAt_append_one (mark : Mark) : EnclosedAt (before ++ [mark]) distance ↔
    (∃ k, EnclosedAt before k ∧ leaves k mark = some distance) ∨ mark = opens ∧ distance = 0 := by
  constructor
  · rintro ⟨outer, inner, heq, hinner⟩
    rcases List.eq_nil_or_concat' inner with rfl | ⟨inner, last, rfl⟩
    · obtain ⟨rfl, hlast⟩ := List.append_inj' heq rfl
      obtain rfl := List.singleton_inj.mp hlast
      exact .inr ⟨rfl, (Option.some.inj hinner).symm⟩
    · rw [← List.cons_append, ← List.append_assoc] at heq
      obtain ⟨rfl, hlast⟩ := List.append_inj' heq rfl
      obtain rfl := List.singleton_inj.mp hlast
      rw [unclosed?_append_one] at hinner
      obtain ⟨k, hk, hleaves⟩ := Option.bind_eq_some_iff.mp hinner
      exact .inl ⟨k, ⟨outer, inner, rfl, hk⟩, hleaves⟩
  · rintro (⟨k, ⟨outer, inner, rfl, hk⟩, hleaves⟩ | ⟨rfl, rfl⟩)
    · refine ⟨outer, inner ++ [mark], by simp, ?_⟩
      rw [unclosed?_append_one, hk]
      exact hleaves
    · exact ⟨before, [], rfl, rfl⟩

lemma declaredAt_append_one (mark : Mark) : DeclaredAt (before ++ [mark]) name distance ↔
    (∃ k, DeclaredAt before name k ∧ leaves k mark = some distance) ∨
      mark = declares name ∧ distance = 0 ∧ EnclosedAt before 0 := by
  constructor
  · rintro ⟨outer, inner, between, heq, hinner, hbetween⟩
    rw [← List.cons_append, ← List.append_assoc] at heq
    rcases List.eq_nil_or_concat' between with rfl | ⟨between, last, rfl⟩
    · obtain ⟨rfl, hlast⟩ := List.append_inj' heq rfl
      obtain rfl := List.singleton_inj.mp hlast
      exact .inr ⟨rfl, (Option.some.inj hbetween).symm, outer, inner, rfl, hinner⟩
    · rw [← List.cons_append, ← List.append_assoc] at heq
      obtain ⟨rfl, hlast⟩ := List.append_inj' heq rfl
      obtain rfl := List.singleton_inj.mp hlast
      rw [unclosed?_append_one] at hbetween
      obtain ⟨k, hk, hleaves⟩ := Option.bind_eq_some_iff.mp hbetween
      exact .inl ⟨k, ⟨outer, inner, between, by simp, hinner, hk⟩, hleaves⟩
  · rintro (⟨k, ⟨outer, inner, between, rfl, hinner, hk⟩, hleaves⟩ |
      ⟨rfl, rfl, outer, inner, rfl, hinner⟩)
    · refine ⟨outer, inner, between ++ [mark], by simp, hinner, ?_⟩
      rw [unclosed?_append_one, hk]
      exact hleaves
    · exact ⟨outer, inner, [], by simp, hinner, rfl⟩

lemma not_declaredAt_of_top (htop : ∀ outer between, before = outer ++ declares name :: between →
    unclosed? outer = some 0) : ¬ DeclaredAt before name distance := by
  rintro ⟨outer, inner, between, rfl, hinner, -⟩
  exact unclosed?_ne_zero hinner (htop (outer ++ opens :: inner) between (by simp))

/-- A name is declared only where a scope begins. -/
def Leads (name : String) (marks : List Mark) : Prop :=
  ∀ front behind, marks = front ++ declares name :: behind → ∃ outer, front = outer ++ [opens]

section Leads

variable {marks more behind : List Mark}

lemma leads_nil : Leads name [] := by
  simp [Leads]

lemma Leads.append (h : Leads name marks) (h' : Leads name more) : Leads name (marks ++ more) := by
  intro front behind heq
  rcases List.append_eq_append_iff.mp heq with ⟨between, rfl, hmore⟩ | ⟨between, hmarks, heq⟩
  · obtain ⟨outer, rfl⟩ := h' between behind hmore
    exact ⟨marks ++ outer, (List.append_assoc ..).symm⟩
  · cases between with
    | nil =>
      obtain ⟨outer, hnil⟩ := h' [] behind heq.symm
      simp at hnil
    | cons mark between =>
      obtain ⟨rfl, -⟩ := List.cons.inj heq
      exact h front between hmarks

lemma Leads.cons {mark : Mark} (hm : mark ≠ declares name) (h : Leads name marks) :
    Leads name (mark :: marks) := by
  intro front behind heq
  cases front with
  | nil => exact absurd (List.cons.inj heq).1 hm
  | cons head front =>
    obtain ⟨outer, rfl⟩ := h front behind (List.cons.inj heq).2
    exact ⟨head :: outer, rfl⟩

lemma Leads.opens (h : Leads name marks) : Leads name (opens :: declares name :: marks) := by
  intro front behind heq
  match front with
  | [] => simp at heq
  | [head] => exact ⟨[], by rw [(List.cons.inj heq).1]; rfl⟩
  | head :: second :: front =>
    obtain ⟨outer, rfl⟩ := h front behind (List.cons.inj (List.cons.inj heq).2).2
    exact ⟨head :: second :: outer, rfl⟩

/-- Between two places with the same scopes around them, such a name is not declared in one of these. -/
lemma Leads.declaredAt_append (h : Leads name (before ++ (more ++ behind)))
    (hmore : unclosed? more = some 0) (hhead : more.head? ≠ some (declares name)) :
    DeclaredAt (before ++ more) name distance ↔ DeclaredAt before name distance := by
  constructor
  · rintro ⟨outer, inner, between, heq, hinner, hbetween⟩
    rw [← List.cons_append, ← List.append_assoc] at heq
    rcases List.append_eq_append_iff.mp heq with ⟨front, -, rfl⟩ | ⟨front, rfl, hrest⟩
    · obtain ⟨scopes, hfront⟩ := h (before ++ front) (between ++ behind) (by simp)
      rcases List.eq_nil_or_concat' front with rfl | ⟨front, last, rfl⟩
      · simp at hhead
      · rw [← List.append_assoc] at hfront
        obtain rfl := List.singleton_inj.mp (List.append_inj' hfront rfl).2
        have hopen : unclosed? (declares name :: between) = some distance := hbetween
        rw [List.append_assoc, List.singleton_append] at hmore
        exact absurd hmore (unclosed?_ne_zero hopen)
    · cases front with
      | nil =>
        obtain rfl : declares name :: between = more := hrest
        simp at hhead
      | cons mark front =>
        rw [List.cons_append] at hrest
        obtain ⟨rfl, rfl⟩ := List.cons.inj hrest
        rw [unclosed?, List.foldlM_append] at hbetween
        obtain ⟨k, hfront, hmoreAt⟩ := Option.bind_eq_some_iff.mp hbetween
        have hkept := foldlM_leaves_add hmore k
        rw [Nat.zero_add, hmoreAt] at hkept
        obtain rfl := Option.some.inj hkept
        exact ⟨outer, inner, front, by simp, hinner, hfront⟩
  · rintro ⟨outer, inner, between, rfl, hinner, hbetween⟩
    refine ⟨outer, inner, between ++ more, by simp, hinner, ?_⟩
    rw [unclosed?_append hbetween hmore, Nat.zero_add]

end Leads

end Declaring

end Mark

end Lox
