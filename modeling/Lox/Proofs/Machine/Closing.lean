import Lox.Eval.Evaluate
import Lox.Proofs.Machine.Closed

/-! Evaluation keeps a machine closed, and what it comes to is there, by induction on the fuel. -/

namespace Lox

lemma UnaryOp.in_apply {m : Machine} {op : UnaryOp} {value result : Value}
    (h : op.apply value = .ok result) : result.In m := by
  cases op <;> cases value <;> cases h <;> trivial

lemma BinaryOp.in_apply {m : Machine} {op : BinaryOp} {left right result : Value}
    (h : op.apply left right = .ok result) : result.In m := by
  cases op <;> cases left <;> cases right <;> cases h <;> trivial

namespace Run

variable {α β : Type} {m : Machine}

/-- However the run ends, the machine has grown and is closed, and a result is as expected. -/
structure Closes (m : Machine) (x : Run α) (post : α → Machine → Prop) : Prop where
  grows : m.Grows (outcome x m).2
  closed : (outcome x m).2.Closed
  result : ∀ a, (outcome x m).1 = .ok a → post a (outcome x m).2

section Rules

variable {post : α → Machine → Prop} {post' : β → Machine → Prop}

lemma closes_pure (hm : m.Closed) {a : α} (h : post a m) : Closes m (pure a) post := by
  refine ⟨.refl m, hm, fun b hb => ?_⟩
  rw [← Except.ok.inj hb]
  exact h

lemma closes_throw (hm : m.Closed) (halt : Halt) : Closes m (throw halt) post :=
  ⟨.refl m, hm, fun _ hb => nomatch hb⟩

lemma closes_fail (hm : m.Closed) (cause : RuntimeError.Cause) (line : Nat) :
    Closes m (fail cause line) post :=
  closes_throw hm _

lemma Closes.bind {x : Run α} {f : α → Run β} (h : Closes m x post)
    (hf : ∀ a m', m.Grows m' → m'.Closed → post a m' → Closes m' (f a) post') :
    Closes m (x >>= f) post' := by
  obtain ⟨hgrows, hclosed, hresult⟩ := h
  rcases hx : outcome x m with ⟨_ | a, m'⟩ <;> rw [hx] at hgrows hclosed hresult <;>
    constructor <;> rw [outcome_bind, hx]
  · exact hgrows
  · exact hclosed
  · exact fun _ hb => nomatch hb
  · exact hgrows.trans (hf a m' hgrows hclosed (hresult a rfl)).grows
  · exact (hf a m' hgrows hclosed (hresult a rfl)).closed
  · exact (hf a m' hgrows hclosed (hresult a rfl)).result

lemma Closes.yield {x : Run α} {f : α → β} (h : Closes m x post)
    (hf : ∀ a m', m.Grows m' → m'.Closed → post a m' → post' (f a) m') :
    Closes m (x >>= fun a => pure (f a)) post' :=
  h.bind fun a m' hgrows hclosed ha => closes_pure hclosed (hf a m' hgrows hclosed ha)

lemma closes_get {f : Machine → Run α} (h : Closes m (f m) post) : Closes m (get >>= f) post := by
  constructor <;> rw [outcome_bind, outcome_get]
  · exact h.grows
  · exact h.closed
  · exact h.result

lemma closes_require (hm : m.Closed) {result : Option α} {cause : RuntimeError.Cause} {line : Nat}
    {f : α → Run β} (h : ∀ a, result = some a → Closes m (f a) post') :
    Closes m (require result cause line >>= f) post' := by
  cases result with
  | none => exact closes_throw hm _
  | some a => exact h a rfl

lemma closes_ofResult (hm : m.Closed) {result : Except RuntimeError.Cause α} {line : Nat}
    (h : ∀ a, result = .ok a → post a m) : Closes m (ofResult line result) post := by
  cases result with
  | error cause => exact closes_fail hm _ _
  | ok a => exact closes_pure hm (h a rfl)

lemma closes_within {frame : FrameRef} {x : Run α} (hm : m.Closed)
    (h : ∀ m : Machine, m.Closed → Closes m x post)
    (hpost : ∀ a (m : Machine) frame, post a m → post a { m with current := frame }) :
    Closes m (within frame x) post := by
  obtain ⟨hgrows, hclosed, hresult⟩ :=
    h { m with current := frame } (hm.grows (.of_eq rfl rfl rfl) rfl rfl rfl)
  constructor <;> rw [outcome_within]
  · exact ⟨hgrows.functions, hgrows.classes, hgrows.instances⟩
  · exact hclosed.grows (.of_eq rfl rfl rfl) rfl rfl rfl
  · exact fun a ha => hpost a _ _ (hresult a ha)

lemma closes_currentFrame (hm : m.Closed) : Closes m currentFrame fun _ _ => True :=
  ⟨.refl m, hm, fun _ _ => trivial⟩

lemma closes_newFrame (hm : m.Closed) (enclosing : FrameRef) {bindings : Bindings Value}
    (hb : ∀ name value, bindings.get? name = some value → value.In m) :
    Closes m (newFrame enclosing bindings) fun _ _ => True :=
  ⟨.of_eq rfl rfl rfl, hm.newFrame hb enclosing, fun _ _ => trivial⟩

lemma closes_define (hm : m.Closed) (frame : FrameRef) (name : String) {value : Value}
    (hv : value.In m) : Closes m (define frame name value) fun _ _ => True :=
  ⟨.of_eq rfl rfl rfl, hm.define hv frame name, fun _ _ => trivial⟩

lemma closes_newFunction (hm : m.Closed) (closure : Closure) :
    Closes m (newFunction closure) fun ref m' => Value.In m' (.functionAt ref) := by
  refine ⟨⟨by simp [newFunction], Nat.le_refl _, Nat.le_refl _⟩, hm.newFunction closure,
    fun ref href => ?_⟩
  rw [← Except.ok.inj href]
  simp [newFunction, Value.In]

end Rules

/-- Expressions keep machines closed, and their values are there. -/
def EvaluatesClosed (run : Expr → Run Value) : Prop :=
  ∀ m value, m.Closed → Closes m (run value) fun result m' => result.In m'

/-- The statements keep machines closed, and a value with which one returns is there. -/
def ExecutesClosed (run : Stmt → Run Completion) : Prop :=
  ∀ m stated, m.Closed → Closes m (run stated) fun completion m' => completion.value.In m'

lemma sequence_closes {run : Stmt → Run Completion} (h : ExecutesClosed run) (hm : m.Closed)
    (body : List Stmt) :
    Closes m (sequence run body) fun completion m' => completion.value.In m' := by
  induction body generalizing m with
  | nil => exact closes_pure hm trivial
  | cons stated rest ih =>
    refine (h m stated hm).bind fun completion m' _ hm' hv => ?_
    cases completion with
    | normal => exact ih hm'
    | returned value => exact closes_pure hm' hv

lemma evaluateEach_closes {run : Expr → Run Value} (h : EvaluatesClosed run) (hm : m.Closed)
    (values : List Expr) :
    Closes m (evaluateEach run values) fun results m' => ∀ result ∈ results, result.In m' := by
  induction values generalizing m with
  | nil => exact closes_pure hm (by simp)
  | cons value rest ih =>
    refine (h m value hm).bind fun first m' _ hm' hfirst => ?_
    exact (ih hm').yield fun others _ hgrows _ hothers =>
      List.forall_mem_cons.mpr ⟨hfirst.grows hgrows, hothers⟩

lemma in_of_single {name : String} {value : Value} (hv : value.In m) (other : String) (given : Value)
    (h : ((∅ : Bindings Value).insert name value).get? other = some given) : given.In m := by
  rw [Bindings.get?_insert] at h
  split at h
  · rwa [← Option.some.inj h]
  · simp at h

lemma in_of_parameters {arguments : List Value} (ha : ∀ value ∈ arguments, value.In m)
    (names : List String) (name : String) (value : Value)
    (h : ((∅ : Bindings Value).insertAll (names.zip arguments)).get? name = some value) :
    value.In m := by
  rcases Bindings.get?_insertAll_eq_some h with h | h
  · simp at h
  · exact ha value (List.of_mem_zip h).2

lemma bound_closes (hm : m.Closed) (method : Closure) {self : InstanceRef}
    (hs : Value.In m (.instanceAt self)) : Closes m (bound method self) fun _ _ => True :=
  (closes_newFrame hm method.scope (in_of_single hs)).yield fun _ _ _ _ _ => trivial

lemma boundValue_closes (hm : m.Closed) (method : Closure) {self : InstanceRef}
    (hs : Value.In m (.instanceAt self)) :
    Closes m (boundValue method self) fun value m' => value.In m' :=
  (bound_closes hm method hs).bind fun closure _ _ hm' _ =>
    (closes_newFunction hm' closure).yield fun _ _ _ _ hin => hin

section Calls

variable {run : Stmt → Run Completion}

lemma invoke_closes (h : ExecutesClosed run) (hm : m.Closed) (closure : Closure)
    {arguments : List Value} (ha : ∀ value ∈ arguments, value.In m) :
    Closes m (invoke run closure arguments) fun value m' => value.In m' := by
  refine (closes_newFrame hm closure.scope (in_of_parameters ha _)).bind fun frame m' _ hm' _ => ?_
  have hbody : Closes m' (within frame (sequence run closure.decl.body)) fun completion m'' =>
      completion.value.In m'' :=
    closes_within hm' (fun _ hm => sequence_closes h hm _) fun completion _ _ hin =>
      hin.grows (.of_eq rfl rfl rfl)
  refine hbody.bind fun completion m'' _ hm'' hin => ?_
  split
  · refine closes_get (closes_pure hm'' ?_)
    cases hthis : m''.frames.lookup? closure.scope Scope.thisName with
    | none => trivial
    | some value => exact hm''.frames _ _ value hthis
  · exact closes_pure hm'' hin

lemma newInstance_closes (hm : m.Closed) {ref : ClassRef} (hclass : ref.index < m.classes.size) :
    Closes m (newInstance ref) fun self m' => Value.In m' (.instanceAt self) := by
  refine ⟨⟨Nat.le_refl _, Nat.le_refl _, by simp [newInstance]⟩, hm.newInstance hclass,
    fun self hself => ?_⟩
  rw [← Except.ok.inj hself]
  simp [newInstance, Value.In]

lemma index_lt_of_construct {callee : Value} {ref : ClassRef} {initializer : Option Closure}
    (hc : callee.In m) (h : m.callable? callee = some (.construct ref initializer)) :
    ref.index < m.classes.size := by
  cases callee with
  | classAt ref' =>
    obtain ⟨rfl, -⟩ := Callable.construct.inj (Option.some.inj h)
    exact hc
  | nil | boolean | number | text | native | functionAt | instanceAt =>
    simp [Machine.callable?] at h

lemma call_closes (h : ExecutesClosed run) (hm : m.Closed) {callable : Callable}
    (hc : ∀ ref initializer, callable = .construct ref initializer → ref.index < m.classes.size)
    {arguments : List Value} (ha : ∀ value ∈ arguments, value.In m) :
    Closes m (call run callable arguments) fun value m' => value.In m' := by
  cases callable with
  | native primitive =>
    cases primitive
    refine ⟨.of_eq rfl rfl rfl, hm.grows (.of_eq rfl rfl rfl) rfl rfl rfl,
      fun value hv => ?_⟩
    rw [← Except.ok.inj hv]
    trivial
  | function closure => exact invoke_closes h hm closure ha
  | construct ref initializer =>
    refine (newInstance_closes hm (hc ref initializer rfl)).bind fun self m' hgrows hm' hself => ?_
    cases initializer with
    | none => exact closes_pure hm' hself
    | some method =>
      refine (bound_closes hm' method hself).bind fun closure m'' hgrows' hm'' _ => ?_
      have hgiven : ∀ value ∈ arguments, value.In m'' := fun value hv =>
        (ha value hv).grows (hgrows.trans hgrows')
      exact (invoke_closes h hm'' closure hgiven).yield fun _ _ hgrows'' _ _ =>
        hself.grows (hgrows'.trans hgrows'')

lemma callValue_closes (h : ExecutesClosed run) (hm : m.Closed) {callee : Value} (hc : callee.In m)
    {arguments : List Value} (ha : ∀ value ∈ arguments, value.In m) (line : Nat) :
    Closes m (callValue run callee arguments line) fun value m' => value.In m' := by
  refine closes_get (closes_require hm fun callable hcallable => ?_)
  split
  · refine call_closes h hm ?_ ha
    rintro ref initializer rfl
    exact index_lt_of_construct hc hcallable
  · exact closes_fail hm _ _

end Calls

lemma getProperty_closes (hm : m.Closed) {object : Value} (ho : object.In m) (property : Name) :
    Closes m (getProperty object property) fun value m' => value.In m' := by
  cases object with
  | instanceAt self =>
    refine closes_get (closes_require hm fun member hmember => ?_)
    cases member with
    | field value => exact closes_pure hm (hm.field hmember)
    | method method => exact boundValue_closes hm method ho
  | nil | boolean | number | text | native | functionAt | classAt => exact closes_fail hm _ _

lemma getSuper_closes (hm : m.Closed) (keyword : Reference) (method : Name) :
    Closes m (getSuper keyword method) fun value m' => value.In m' :=
  closes_get (closes_require hm fun (_, _) hsuper => closes_require hm fun found _ =>
    boundValue_closes hm found (hm.super? hsuper).2)

lemma read_closes (hm : m.Closed) (target : Reference) :
    Closes m (read target) fun value m' => value.In m' := by
  have hread : Closes m (require (m.read? target) (.undefinedVariable target.name.text)
      target.name.line) fun value m' => value.In m' := by
    cases hvalue : m.read? target with
    | none => exact closes_throw hm _
    | some value => exact closes_pure hm (hm.read? hvalue)
  exact closes_get hread

lemma assign_closes (hm : m.Closed) (target : Reference) {value : Value} (hv : value.In m) :
    Closes m (assign target value) fun _ _ => True :=
  closes_get (closes_require hm fun frame _ => closes_define hm frame target.name.text hv)

lemma setField_closes (hm : m.Closed) (self : InstanceRef) (name : String) {value : Value}
    (hv : value.In m) : Closes m (setField self name value) fun _ _ => True :=
  ⟨⟨Nat.le_refl _, Nat.le_refl _, by simp [setField]⟩, hm.setField hv self name, fun _ _ => trivial⟩

lemma print_closes (hm : m.Closed) (text : String) (line : Nat) :
    Closes m (print text line) fun _ _ => True := by
  have hm' : Machine.Closed { m with output := m.output.write (text ++ "\n").toUTF8 } :=
    hm.grows (.of_eq rfl rfl rfl) rfl rfl rfl
  have hwritten : Closes m (modify fun m =>
      { m with output := m.output.write (text ++ "\n").toUTF8 }) fun _ _ => True :=
    ⟨.of_eq rfl rfl rfl, hm', fun _ _ => trivial⟩
  refine closes_get (hwritten.bind fun _ m' _ hm'' _ => ?_)
  split
  · exact closes_fail hm'' _ _
  · exact closes_pure hm'' trivial

lemma superclassOf_closes (hm : m.Closed) (target : Reference) :
    Closes m (superclassOf target) fun ref m' => Value.In m' (.classAt ref) := by
  refine (read_closes hm target).bind fun value m' _ hm' hv => ?_
  cases value with
  | classAt ref => exact closes_pure hm' hv
  | nil | boolean | number | text | native | functionAt | instanceAt => exact closes_fail hm' _ _

lemma declareFunction_closes (hm : m.Closed) (decl : FunctionDecl) :
    Closes m (declareFunction decl) fun _ _ => True :=
  (closes_currentFrame hm).bind fun frame _ _ hm' _ =>
    (closes_newFunction hm' ⟨decl, frame, false⟩).bind fun _ _ _ hm'' hin =>
      closes_define hm'' frame decl.name.text hin

lemma makeClass_closes (hm : m.Closed) (decl : ClassDecl) {superclass : Option ClassRef}
    (hp : ∀ parent, superclass = some parent → Value.In m (.classAt parent)) (scope : FrameRef) :
    Closes m (makeClass decl superclass scope) fun ref m' => Value.In m' (.classAt ref) := by
  refine ⟨⟨Nat.le_refl _, by simp [makeClass, newClass], Nat.le_refl _⟩, hm.newClass hp,
    fun ref href => ?_⟩
  rw [← Except.ok.inj href]
  simp [makeClass, newClass, Value.In]

lemma superclass_closes (hm : m.Closed) (superclass : Option Reference) :
    Closes m (superclass.mapM superclassOf) fun superclass m' =>
      ∀ parent, superclass = some parent → Value.In m' (.classAt parent) := by
  cases superclass with
  | none => exact closes_pure hm (by simp)
  | some target =>
    change Closes m (some <$> superclassOf target) _
    rw [← bind_pure_comp]
    refine (superclassOf_closes hm target).yield fun ref m' _ _ hin parent hparent => ?_
    rwa [← Option.some.inj hparent]

lemma declareClass_closes (hm : m.Closed) (decl : ClassDecl) :
    Closes m (declareClass decl) fun _ _ => True := by
  rw [declareClass_eq]
  refine (superclass_closes hm decl.superclass).bind fun superclass m₁ _ hm₁ hp => ?_
  refine (closes_currentFrame hm₁).bind fun frame m₂ hgrows₂ hm₂ _ => ?_
  have hnil : Value.In m₂ .nil := trivial
  refine (closes_define hm₂ frame decl.name.text hnil).bind fun _ m₃ hgrows₃ hm₃ _ => ?_
  have hp₃ (parent : ClassRef) (hparent : superclass = some parent) : Value.In m₃ (.classAt parent) :=
    (hp parent hparent).grows (hgrows₂.trans hgrows₃)
  -- What comes after the frame of the methods is there.
  have hrest {m' : Machine} (hm' : m'.Closed) (hgrows : m₃.Grows m') (scope : FrameRef) :
      Closes m' (makeClass decl superclass scope >>= fun ref =>
        define frame decl.name.text (.classAt ref)) fun _ _ => True :=
    (makeClass_closes hm' decl (fun parent hparent => (hp₃ parent hparent).grows hgrows) scope).bind
      fun _ _ _ hm'' hin => closes_define hm'' frame decl.name.text hin
  cases superclass with
  | none => exact hrest hm₃ (.refl m₃) frame
  | some ref =>
    refine (closes_newFrame hm₃ frame (in_of_single (hp₃ ref rfl))).bind fun scope _ hgrows hm' _ => ?_
    exact hrest hm' hgrows scope

lemma option_closes {run : Expr → Run Value} (h : EvaluatesClosed run) (hm : m.Closed)
    (value : Option Expr) :
    Closes m (value.elim (pure .nil) run) fun result m' => result.In m' := by
  cases value with
  | none => exact closes_pure hm trivial
  | some value => exact h m value hm

section Evaluation

variable {fuel : Nat}

lemma evaluate_closes (h : EvaluatesClosed (evaluate fuel)) (hx : ExecutesClosed (execute fuel)) :
    EvaluatesClosed (evaluate (fuel + 1)) := by
  intro m node hm
  cases node with
  | literal value => exact closes_pure hm (Value.in_ofLiteral value)
  | grouping inner => exact h m inner hm
  | unary op line operand =>
    exact (h m operand hm).bind fun _ _ _ hm' _ =>
      closes_ofResult hm' fun _ hresult => UnaryOp.in_apply hresult
  | binary op line left right =>
    refine (h m left hm).bind fun _ m' _ hm' _ => (h m' right hm').bind fun _ _ _ hm'' _ => ?_
    exact closes_ofResult hm'' fun _ hresult => BinaryOp.in_apply hresult
  | logical op line left right =>
    refine (h m left hm).bind fun value m' _ hm' hv => ?_
    split
    · exact closes_pure hm' hv
    · exact h m' right hm'
  | read target | this target => exact read_closes hm target
  | assign target value =>
    refine (h m value hm).bind fun given m' _ hm' hv => ?_
    exact (assign_closes hm' target hv).yield fun _ _ hgrows _ _ => hv.grows hgrows
  | call callee arguments line =>
    refine (h m callee hm).bind fun called m' _ hm' hc => ?_
    exact (evaluateEach_closes h hm' arguments).bind fun given _ hgrows hm'' hgiven =>
      callValue_closes hx hm'' (hc.grows hgrows) hgiven line
  | get object property =>
    exact (h m object hm).bind fun _ _ _ hm' ho => getProperty_closes hm' ho property
  | set object property value =>
    refine (h m object hm).bind fun self m' _ hm' _ => ?_
    cases self with
    | instanceAt self =>
      refine (h m' value hm').bind fun given m'' _ hm'' hv => ?_
      exact (setField_closes hm'' self property.text hv).yield fun _ _ hgrows _ _ => hv.grows hgrows
    | nil | boolean | number | text | native | functionAt | classAt => exact closes_fail hm' _ _
  | super keyword method => exact getSuper_closes hm keyword method

lemma execute_closes (h : EvaluatesClosed (evaluate fuel)) (hx : ExecutesClosed (execute fuel)) :
    ExecutesClosed (execute (fuel + 1)) := by
  intro m stated hm
  cases stated with
  | expression value => exact (h m value hm).yield fun _ _ _ _ _ => trivial
  | print line value =>
    refine (h m value hm).bind fun _ m' _ hm' _ => closes_get ?_
    exact (print_closes hm' _ line).yield fun _ _ _ _ _ => trivial
  | varDecl name initial =>
    refine (option_closes h hm initial).bind fun value m' _ hm' hv => ?_
    refine (closes_currentFrame hm').bind fun frame m'' hgrows hm'' _ => ?_
    exact (closes_define hm'' frame name.text (hv.grows hgrows)).yield fun _ _ _ _ _ => trivial
  | functionDecl decl => exact (declareFunction_closes hm decl).yield fun _ _ _ _ _ => trivial
  | classDecl decl => exact (declareClass_closes hm decl).yield fun _ _ _ _ _ => trivial
  | block body =>
    refine (closes_currentFrame hm).bind fun outer m' _ hm' _ => ?_
    refine (closes_newFrame hm' outer (by simp)).bind fun frame m'' _ hm'' _ => ?_
    exact closes_within hm'' (fun _ hm => sequence_closes hx hm body) fun _ _ _ hin =>
      hin.grows (.of_eq rfl rfl rfl)
  | ifElse condition thenBranch elseBranch =>
    refine (h m condition hm).bind fun _ m' _ hm' _ => ?_
    split
    · exact hx m' thenBranch hm'
    · cases elseBranch with
      | none => exact closes_pure hm' trivial
      | some elseBranch => exact hx m' elseBranch hm'
  | whileLoop condition body =>
    refine (h m condition hm).bind fun _ m' _ hm' _ => ?_
    split
    · refine (hx m' body hm').bind fun completion m'' _ hm'' hin => ?_
      cases completion with
      | normal => exact hx m'' (.whileLoop condition body) hm''
      | returned value => exact closes_pure hm'' hin
    · exact closes_pure hm' trivial
  | ret keyword value => exact (option_closes h hm value).yield fun _ _ _ _ hin => hin

lemma all_close (fuel : Nat) : EvaluatesClosed (evaluate fuel) ∧ ExecutesClosed (execute fuel) := by
  induction fuel with
  | zero => exact ⟨fun _ _ hm => closes_throw hm _, fun _ _ hm => closes_throw hm _⟩
  | succ fuel ih => exact ⟨evaluate_closes ih.1 ih.2, execute_closes ih.1 ih.2⟩

lemma program_closes (fuel : Nat) (program : Program) (hm : m.Closed) :
    Closes m (Program.execute fuel program) fun _ _ => True := by
  induction program generalizing m with
  | nil => exact closes_pure hm trivial
  | cons stated rest ih => exact ((all_close fuel).2 m stated hm).bind fun _ _ _ hm' _ => ih hm'

end Evaluation

end Run

end Lox
