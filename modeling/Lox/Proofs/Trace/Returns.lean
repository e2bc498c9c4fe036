import Lox.Proofs.Machine.Quiet
import Lox.Proofs.Trace.Evaluate
import Lox.Proofs.Watch.Origins

/-! Where a program returns, and with what. In a program that resolution accepts nothing is returned
outside of all functions, and no initializer returns a value. On a machine that has run accepted programs
alone the same is so of every function. -/

namespace Lox

/-- An initializer returns without a value only, any other function with any value. -/
def mayReturn (isInitializer : Bool) (value : Option Expr) : Prop :=
  isInitializer = true → value = none

mutual

/-- The return statements that end the function in which the statement is. -/
def Stmt.returns : Stmt → List Return
  | .block body => Stmt.returnsAll body
  | .ifElse _ thenBranch none => thenBranch.returns
  | .ifElse _ thenBranch (some elseBranch) => thenBranch.returns ++ elseBranch.returns
  | .whileLoop _ body => body.returns
  | .ret keyword value => [⟨keyword, value⟩]
  | .expression _ | .print .. | .varDecl .. | .functionDecl _ | .classDecl _ => []

def Stmt.returnsAll : List Stmt → List Return
  | [] => []
  | stated :: rest => stated.returns ++ Stmt.returnsAll rest

end

mutual

/-- Each return statement returns what it may: those of the functions in the statement, and its own what
is allowed. -/
def Stmt.ReturnsFit (allowed : Option Expr → Prop) : Stmt → Prop
  | .functionDecl decl => decl.ReturnsFit false
  | .classDecl decl => decl.ReturnsFit
  | .block body => Stmt.ReturnsFitAll allowed body
  | .ifElse _ thenBranch none => thenBranch.ReturnsFit allowed
  | .ifElse _ thenBranch (some elseBranch) =>
    thenBranch.ReturnsFit allowed ∧ elseBranch.ReturnsFit allowed
  | .whileLoop _ body => body.ReturnsFit allowed
  | .ret _ value => allowed value
  | .expression _ | .print .. | .varDecl .. => True

def Stmt.ReturnsFitAll (allowed : Option Expr → Prop) : List Stmt → Prop
  | [] => True
  | stated :: rest => stated.ReturnsFit allowed ∧ Stmt.ReturnsFitAll allowed rest

def FunctionDecl.ReturnsFit (isInitializer : Bool) : FunctionDecl → Prop
  | ⟨_, _, body⟩ => Stmt.ReturnsFitAll (mayReturn isInitializer) body

def ClassDecl.ReturnsFit : ClassDecl → Prop
  | ⟨_, _, methods⟩ => FunctionDecl.ReturnsFitAll methods

def FunctionDecl.ReturnsFitAll : List FunctionDecl → Prop
  | [] => True
  | method :: rest => method.ReturnsFit method.isInitializer ∧ FunctionDecl.ReturnsFitAll rest

end

lemma FunctionDecl.returnsFit_iff {isInitializer : Bool} {decl : FunctionDecl} :
    decl.ReturnsFit isInitializer ↔ Stmt.ReturnsFitAll (mayReturn isInitializer) decl.body := by
  cases decl
  rfl

lemma FunctionDecl.returnsFitAll_iff {methods : List FunctionDecl} :
    FunctionDecl.ReturnsFitAll methods ↔ ∀ method ∈ methods, method.ReturnsFit method.isInitializer := by
  induction methods with
  | nil => simp [FunctionDecl.ReturnsFitAll]
  | cons method rest ih => rw [FunctionDecl.ReturnsFitAll, ih, List.forall_mem_cons]

section Allowed

variable {allowed : Option Expr → Prop}

mutual

lemma Stmt.ReturnsFit.allowed_returns {stated : Stmt} (h : stated.ReturnsFit allowed) :
    ∀ r ∈ stated.returns, allowed r.value := by
  cases stated with
  | expression | print | varDecl | functionDecl | classDecl => simp [Stmt.returns]
  | block body =>
    have hbody : Stmt.ReturnsFitAll allowed body := h
    exact hbody.allowed_returns
  | ifElse condition thenBranch elseBranch =>
    cases elseBranch with
    | none =>
      have hthen : thenBranch.ReturnsFit allowed := h
      exact hthen.allowed_returns
    | some elseBranch =>
      obtain ⟨hthen, helse⟩ : thenBranch.ReturnsFit allowed ∧ elseBranch.ReturnsFit allowed := h
      exact List.forall_mem_append.mpr ⟨hthen.allowed_returns, helse.allowed_returns⟩
  | whileLoop condition body =>
    have hbody : body.ReturnsFit allowed := h
    exact hbody.allowed_returns
  | ret keyword value => exact List.forall_mem_singleton.mpr h

lemma Stmt.ReturnsFitAll.allowed_returns {body : List Stmt} (h : Stmt.ReturnsFitAll allowed body) :
    ∀ r ∈ Stmt.returnsAll body, allowed r.value := by
  cases body with
  | nil => simp [Stmt.returnsAll]
  | cons stated rest =>
    obtain ⟨hstated, hrest⟩ : stated.ReturnsFit allowed ∧ Stmt.ReturnsFitAll allowed rest := h
    exact List.forall_mem_append.mpr ⟨hstated.allowed_returns, hrest.allowed_returns⟩

end

end Allowed

section Resolution

/-- Where resolution has nothing to say against a return, it is allowed. -/
def Context.Admits (context : Context) (allowed : Option Expr → Prop) : Prop :=
  ∀ value, context.function ≠ .none → (context.function = .initializer → value = none) →
    allowed value

lemma Context.admits_function (context : Context) :
    ({ context with function := .function } : Context).Admits (mayReturn false) :=
  fun _ _ _ h => absurd h Bool.false_ne_true

lemma Context.admits_method (context : Context) (isInitializer : Bool) :
    ({ context with function := if isInitializer then .initializer else .method } : Context).Admits
      (mayReturn isInitializer) := by
  intro value _ h hinitializer
  exact h (if_pos hinitializer)

lemma Stmt.allowed_of_resolveReturn {context : Context} {scopes : List Scope} {keyword : Name}
    {value : Option Expr} {allowed : Option Expr → Prop} (ha : context.Admits allowed)
    (h : (Stmt.resolveReturn context scopes keyword value).violations = []) : allowed value := by
  simp only [Stmt.resolveReturn, Findings.violations_append, List.append_eq_nil_iff] at h
  obtain ⟨⟨htop, hinitializer⟩, -⟩ := h
  refine ha value (fun hnone => ?_) fun hfunction => ?_
  · simp [Findings.violationIf, Findings.violation, hnone] at htop
  · cases value with
    | none => rfl
    | some value => simp [Findings.violationIf, Findings.violation, hfunction] at hinitializer

mutual

lemma Stmt.returnsFit_of_resolve {context : Context} {allowed : Option Expr → Prop}
    (ha : context.Admits allowed) (scopes : List Scope) (stated : Stmt)
    (h : (stated.resolve context scopes).1.violations = []) : stated.ReturnsFit allowed := by
  cases stated with
  | expression | print | varDecl => trivial
  | functionDecl decl =>
    exact FunctionDecl.returnsFit_of_resolve context.admits_function _ decl
      (List.append_eq_nil_iff.mp h).2
  | classDecl decl =>
    exact ClassDecl.returnsFit_of_resolve context _ decl (List.append_eq_nil_iff.mp h).2
  | block body => exact Stmt.returnsFit_of_resolveAll ha (∅ :: scopes) body h
  | ifElse condition thenBranch elseBranch =>
    cases elseBranch with
    | none =>
      exact Stmt.returnsFit_of_resolve ha scopes thenBranch (List.append_eq_nil_iff.mp h).2
    | some elseBranch =>
      obtain ⟨hbefore, helse⟩ := List.append_eq_nil_iff.mp h
      exact ⟨Stmt.returnsFit_of_resolve ha scopes thenBranch (List.append_eq_nil_iff.mp hbefore).2,
        Stmt.returnsFit_of_resolve ha _ elseBranch helse⟩
  | whileLoop condition body =>
    exact Stmt.returnsFit_of_resolve ha scopes body (List.append_eq_nil_iff.mp h).2
  | ret keyword value => exact Stmt.allowed_of_resolveReturn ha h

lemma Stmt.returnsFit_of_resolveAll {context : Context} {allowed : Option Expr → Prop}
    (ha : context.Admits allowed) (scopes : List Scope) (body : List Stmt)
    (h : (Stmt.resolveAll context scopes body).1.violations = []) :
    Stmt.ReturnsFitAll allowed body := by
  cases body with
  | nil => trivial
  | cons stated rest =>
    obtain ⟨hstated, hrest⟩ := List.append_eq_nil_iff.mp h
    exact ⟨Stmt.returnsFit_of_resolve ha scopes stated hstated,
      Stmt.returnsFit_of_resolveAll ha _ rest hrest⟩

lemma FunctionDecl.returnsFit_of_resolve {context : Context} {isInitializer : Bool}
    (ha : context.Admits (mayReturn isInitializer)) (scopes : List Scope) (decl : FunctionDecl)
    (h : (decl.resolve context scopes).violations = []) : decl.ReturnsFit isInitializer := by
  obtain ⟨name, params, body⟩ := decl
  exact Stmt.returnsFit_of_resolveAll ha _ body (List.append_eq_nil_iff.mp h).2

lemma ClassDecl.returnsFit_of_resolve (context : Context) (scopes : List Scope) (decl : ClassDecl)
    (h : (decl.resolve context scopes).violations = []) : decl.ReturnsFit := by
  obtain ⟨name, superclass, methods⟩ := decl
  cases superclass with
  | none => exact FunctionDecl.returnsFit_of_resolveMethods _ _ methods h
  | some superclass =>
    exact FunctionDecl.returnsFit_of_resolveMethods _ _ methods (List.append_eq_nil_iff.mp h).2

lemma FunctionDecl.returnsFit_of_resolveMethods (context : Context) (scopes : List Scope)
    (methods : List FunctionDecl)
    (h : (FunctionDecl.resolveMethods context scopes methods).violations = []) :
    FunctionDecl.ReturnsFitAll methods := by
  cases methods with
  | nil => trivial
  | cons method rest =>
    obtain ⟨hmethod, hrest⟩ := List.append_eq_nil_iff.mp h
    exact ⟨FunctionDecl.returnsFit_of_resolve (context.admits_method _) scopes method hmethod,
      FunctionDecl.returnsFit_of_resolveMethods context scopes rest hrest⟩

end

/-- An accepted program returns nothing outside of all functions. -/
lemma Program.returnsFit_of_resolve {program : Program} {distances : List Distance}
    (h : Program.resolve program = .ok distances) :
    Stmt.ReturnsFitAll (fun _ => False) program := by
  have htop : (⟨.none, .none⟩ : Context).Admits fun _ => False :=
    fun _ hfunction _ => hfunction rfl
  refine Stmt.returnsFit_of_resolveAll htop [] program ?_
  unfold Program.resolve at h
  dsimp only at h
  split at h
  · assumption
  · simp at h

end Resolution

/-- The function returns what it may, and so do the functions in it. -/
def Closure.ReturnsFit (closure : Closure) : Prop :=
  Stmt.ReturnsFitAll (mayReturn closure.isInitializer) closure.decl.body

/-- All functions and methods on the machine do. -/
structure Machine.ReturnsFit (m : Machine) : Prop where
  functions : ∀ closure ∈ m.functions, closure.ReturnsFit
  methods : ∀ type ∈ m.classes, ∀ name closure, type.methods.get? name = some closure →
    closure.ReturnsFit

namespace Machine.ReturnsFit

variable {m : Machine} (h : m.ReturnsFit)

include h

lemma of_eq {m' : Machine} (hfunctions : m'.functions = m.functions)
    (hclasses : m'.classes = m.classes) : m'.ReturnsFit := by
  refine ⟨?_, ?_⟩
  · rw [hfunctions]
    exact h.functions
  · rw [hclasses]
    exact h.methods

lemma method? {ref : ClassRef} {name : String} {closure : Closure}
    (hm : m.method? ref name = some closure) : closure.ReturnsFit := by
  obtain ⟨type, htype, hmethod⟩ := Machine.exists_of_methodAmong? hm
  exact h.methods type htype name closure hmethod

lemma member? {self : InstanceRef} {name : String} {closure : Closure}
    (hm : m.member? self name = some (.method closure)) : closure.ReturnsFit := by
  obtain ⟨found, -, hmember⟩ := Option.bind_eq_some_iff.mp hm
  cases hfield : found.fields.get? name with
  | some value => simp [hfield] at hmember
  | none =>
    rw [hfield, Option.map_none, Option.none_or] at hmember
    obtain ⟨method, hmethod, heq⟩ := Option.map_eq_some_iff.mp hmember
    rw [← Member.method.inj heq]
    exact h.method? hmethod

lemma newFunction {closure : Closure} (hc : closure.ReturnsFit) :
    ReturnsFit { m with functions := m.functions.push closure } := by
  refine ⟨fun other hother => ?_, h.methods⟩
  rcases Array.mem_push.mp hother with hother | rfl
  · exact h.functions other hother
  · exact hc

lemma newClass {type : Class}
    (ht : ∀ name closure, type.methods.get? name = some closure → closure.ReturnsFit) :
    ReturnsFit { m with classes := m.classes.push type } := by
  refine ⟨h.functions, fun other hother => ?_⟩
  rcases Array.mem_push.mp hother with hother | rfl
  · exact h.methods other hother
  · exact ht

end Machine.ReturnsFit

lemma Machine.returnsFit_initial (limit : Option Nat) (reading : Nat → Float) :
    (Machine.initial limit reading).ReturnsFit := by
  constructor <;> simp [Machine.initial]

namespace Run

variable {α β : Type}

/-- The run adds no function that returns what it may not. -/
def KeepsReturns (x : Run α) : Prop :=
  ∀ m : Machine, m.ReturnsFit → (outcome x m).2.ReturnsFit

lemma Quiet.keepsReturns {x : Run α} (h : Quiet x) : KeepsReturns x :=
  fun m hm => hm.of_eq (h m).functions (h m).classes

lemma KeepsReturns.bind {x : Run α} {f : α → Run β} (hx : KeepsReturns x)
    (hf : ∀ a, KeepsReturns (f a)) : KeepsReturns (x >>= f) := by
  intro m hm
  have hfirst := hx m hm
  rw [outcome_bind]
  rcases ho : outcome x m with ⟨_ | a, m'⟩ <;> rw [ho] at hfirst
  · exact hfirst
  · exact hf a m' hfirst

lemma keepsReturns_get {f : Machine → Run α} (hf : ∀ m : Machine, m.ReturnsFit → KeepsReturns (f m)) :
    KeepsReturns (get >>= f) :=
  fun m hm => hf m hm m hm

lemma keepsReturns_require {found : Option α} {f : α → Run β} {cause : RuntimeError.Cause}
    {line : Nat} (hf : ∀ a, found = some a → KeepsReturns (f a)) :
    KeepsReturns (require found cause line >>= f) := by
  cases found with
  | none => exact (quiet_fail cause line).keepsReturns
  | some a => exact hf a rfl

lemma keepsReturns_currentFrame : KeepsReturns currentFrame :=
  fun _ hm => hm

lemma keepsReturns_define (frame : FrameRef) (name : String) (value : Value) :
    KeepsReturns (define frame name value) :=
  fun _ hm => hm.of_eq rfl rfl

lemma keepsReturns_newFunction {closure : Closure} (h : closure.ReturnsFit) :
    KeepsReturns (newFunction closure) :=
  fun _ hm => hm.newFunction h

lemma keepsReturns_assign (target : Reference) (value : Value) : KeepsReturns (assign target value) :=
  keepsReturns_get fun _ _ => keepsReturns_require fun frame _ => keepsReturns_define frame _ _

lemma keepsReturns_boundValue {method : Closure} (h : method.ReturnsFit) (self : InstanceRef) :
    KeepsReturns (boundValue method self) := by
  intro m hm
  have hbound : KeepsReturns (newFunction { method with scope := m.frames.next }) :=
    keepsReturns_newFunction h
  exact hbound _ ((quiet_newFrame method.scope _).keepsReturns m hm)

lemma keepsReturns_getProperty (object : Value) (property : Name) :
    KeepsReturns (getProperty object property) := by
  cases object with
  | instanceAt self =>
    refine keepsReturns_get fun m hm => keepsReturns_require fun member hmember => ?_
    cases member with
    | field value => exact (quiet_pure value).keepsReturns
    | method closure => exact keepsReturns_boundValue (hm.member? hmember) self
  | nil | boolean | number | text | native | functionAt | classAt =>
    exact (quiet_fail _ _).keepsReturns

lemma keepsReturns_getSuper (keyword : Reference) (method : Name) :
    KeepsReturns (getSuper keyword method) :=
  keepsReturns_get fun _ hm => keepsReturns_require fun (_, self) _ =>
    keepsReturns_require fun _ hfound => keepsReturns_boundValue (hm.method? hfound) self

lemma keepsReturns_declareFunction {decl : FunctionDecl} (h : decl.ReturnsFit false) :
    KeepsReturns (declareFunction decl) := by
  refine keepsReturns_get fun m _ => ?_
  have hclosure : Closure.ReturnsFit ⟨decl, m.current, false⟩ := FunctionDecl.returnsFit_iff.mp h
  exact (keepsReturns_newFunction hclosure).bind fun _ => keepsReturns_define _ _ _

lemma keepsReturns_makeClass {decl : ClassDecl} (h : decl.ReturnsFit)
    (superclass : Option ClassRef) (scope : FrameRef) :
    KeepsReturns (makeClass decl superclass scope) := by
  refine fun _ hm => hm.newClass fun name closure hclosure => ?_
  obtain ⟨_, _, methods⟩ := decl
  rcases Bindings.get?_insertAll_eq_some hclosure with hnone | hmem
  · simp at hnone
  · obtain ⟨method, hmethod, heq⟩ := List.mem_map.mp hmem
    rw [← (Prod.mk.inj heq).2]
    exact FunctionDecl.returnsFit_iff.mp (FunctionDecl.returnsFitAll_iff.mp h method hmethod)

lemma keepsReturns_declareClass {decl : ClassDecl} (h : decl.ReturnsFit) :
    KeepsReturns (declareClass decl) := by
  rw [declareClass_eq]
  have hparent : KeepsReturns (decl.superclass.mapM superclassOf) := by
    cases decl.superclass with
    | none => exact (quiet_pure none).keepsReturns
    | some target =>
      simp only [Option.mapM_some, ← bind_pure_comp]
      exact (quiet_superclassOf target).keepsReturns.bind fun _ => (quiet_pure _).keepsReturns
  refine hparent.bind fun superclass => keepsReturns_get fun m _ =>
    (keepsReturns_define _ _ _).bind fun _ => ?_
  have hrest (scope : FrameRef) : KeepsReturns (makeClass decl superclass scope >>= fun ref =>
      define m.current decl.name.text (.classAt ref)) :=
    (keepsReturns_makeClass h superclass scope).bind fun _ => keepsReturns_define _ _ _
  cases superclass with
  | none => exact (quiet_pure m.current).keepsReturns.bind hrest
  | some ref => exact (quiet_newFrame _ _).keepsReturns.bind hrest

end Run

end Lox
