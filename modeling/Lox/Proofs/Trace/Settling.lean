import Lox.Proofs.Trace.Settled

/-! What is returned in a run of an accepted program settles the call it is returned in: by the cases of
the syntax. -/

namespace Lox

def Callable.ReturnsFit : Callable → Prop
  | .native _ => True
  | .function closure => closure.ReturnsFit
  | .construct _ initializer => ∀ method, initializer = some method → method.ReturnsFit

lemma Machine.ReturnsFit.callable? {m : Machine} (h : m.ReturnsFit) {callee : Value}
    {callable : Callable} (hc : m.callable? callee = some callable) : callable.ReturnsFit := by
  cases callee with
  | nil | boolean | number | text | instanceAt => simp [Machine.callable?] at hc
  | native function =>
    obtain rfl : Callable.native function = callable := Option.some.inj hc
    trivial
  | functionAt ref =>
    obtain ⟨closure, hclosure, rfl⟩ := Option.map_eq_some_iff.mp hc
    exact h.functions closure (Array.mem_of_getElem? hclosure)
  | classAt ref =>
    obtain rfl : Callable.construct ref (m.method? ref initializerName) = callable :=
      Option.some.inj hc
    exact fun method hmethod => h.method? hmethod

lemma Spends.concat {n m : Nat} {ids : List Nat} (h : Spends (n + 1) ids m) :
    Spends n (ids ++ [n]) m := by
  have hle := h.le
  refine ⟨by omega, List.nodup_append.mpr ⟨h.nodup, List.nodup_singleton n, fun i hi j hj => ?_⟩,
    fun i hi => ?_⟩
  · have := h.bounds i hi
    have := List.mem_singleton.mp hj
    omega
  · rcases List.mem_append.mp hi with hi | hi
    · have := h.bounds i hi
      omega
    · have := List.mem_singleton.mp hi
      omega

namespace TracedRun

lemma outcome_conclude (call : Nat) (closure : Closure) (completion : Completion) (t : Trace) :
    ∃ result, (closure.isInitializer = false → result = completion.value) ∧
      outcome (conclude call closure completion) t =
        (.ok result, { t with deeds := t.deeds ++ [.ends call closure completion result] }) := by
  cases hinitializer : closure.isInitializer with
  | false =>
    refine ⟨completion.value, fun _ => rfl, ?_⟩
    rw [conclude, hinitializer]
    rfl
  | true =>
    refine ⟨(t.machine.frames.lookup? closure.scope Scope.thisName).getD .nil, by simp, ?_⟩
    rw [conclude, hinitializer]
    rfl

lemma settles_bound {α : Type} {leaves : α → List Deed → Prop} {method : Closure}
    {self : InstanceRef} {f : Closure → TracedRun α}
    (hf : ∀ scope, Settles (f { method with scope }) leaves) :
    Settles (lift (Run.bound method self) >>= f) leaves :=
  (settles_lift (Run.quiet_newFrame method.scope _).keepsReturns).bind hf

section Calls

variable {run : Option Nat → Stmt → TracedRun Completion}
  (hrun : ∀ (call : Option Nat) (stated : Stmt) (allowed : Option Expr → Prop),
    stated.ReturnsFit allowed → Settles (run call stated) (Completion.Leaves call stated.returns))

include hrun

lemma settles_invoke {closure : Closure} (hc : closure.ReturnsFit) (arguments : List Value) :
    Settles (invoke run closure arguments) Clear := by
  intro t ht
  let body : TracedRun Completion := do
    let frame ← lift (Run.newFrame closure.scope
      ((∅ : Bindings Value).insertAll ((closure.decl.params.map Name.text).zip arguments)))
    within frame (sequence (run (some t.calls)) closure.decl.body)
  have hbody : Settles body
      (Completion.Leaves (some t.calls) (Stmt.returnsAll closure.decl.body)) :=
    (settles_lift (Run.quiet_newFrame _ _).keepsReturns).bind fun _ =>
      settles_within (settles_sequence (fun stated => hrun _ stated _) hc)
  have hinvoke : outcome (invoke run closure arguments) t =
      outcome (body >>= conclude t.calls closure) { t with calls := t.calls + 1 } := by
    dsimp only [body]
    rw [bind_assoc]
    rfl
  -- The number of the call is taken before those of the calls in its body, and spent behind them.
  obtain ⟨pending, hends, hbrings⟩ := hbody { t with calls := t.calls + 1 } ht
  rw [hinvoke, outcome_bind]
  obtain ⟨deeds, hdeeds, hsettled, hspends⟩ := hbrings.deeds
  rcases ho : outcome body { t with calls := t.calls + 1 } with ⟨halt | completion, t'⟩ <;>
    rw [ho] at hends hdeeds hspends hbrings
  · obtain ⟨hle, hnodup, hbounds⟩ := hspends
    exact ⟨pending, hends, hbrings.returnsFit, deeds, hdeeds, hsettled, Nat.le_of_succ_le hle, hnodup,
      fun i hi => ⟨Nat.le_of_succ_le (hbounds i hi).1, (hbounds i hi).2⟩⟩
  · have hleaves : completion.Leaves (some t.calls) (Stmt.returnsAll closure.decl.body) pending := hends
    obtain ⟨result, hresult, hconclude⟩ := outcome_conclude t.calls closure completion t'
    dsimp only
    rw [hconclude]
    refine ⟨[], rfl, hbrings.returnsFit,
      deeds ++ (pending ++ [.ends t.calls closure completion result]), ?_,
      hsettled.append (hleaves.settled hc hresult), ?_⟩
    · dsimp only at hdeeds
      simp [hdeeds]
    · rw [List.filterMap_append, List.filterMap_append, hleaves.ended?_eq]
      exact hspends.concat

lemma settles_call {callable : Callable} (hc : callable.ReturnsFit) (arguments : List Value) :
    Settles (call run callable arguments) Clear := by
  cases callable with
  | native primitive =>
    cases primitive
    rw [call, ← bind_pure_comp]
    exact (settles_lift Run.quiet_readClock.keepsReturns).yield fun _ => rfl
  | function closure => exact settles_invoke hrun hc arguments
  | construct ref initializer =>
    refine (settles_lift (Run.quiet_newInstance ref).keepsReturns).bind fun self => ?_
    cases initializer with
    | none => exact settles_pure rfl
    | some method =>
      refine settles_bound fun scope => ?_
      have hmethod : Closure.ReturnsFit { method with scope } := hc method rfl
      exact (settles_invoke hrun hmethod arguments).yield fun _ => rfl

lemma settles_callValue (callee : Value) (arguments : List Value) (line : Nat) :
    Settles (callValue run callee arguments line) Clear :=
  settles_look fun _ hm => settles_require fun _ hfound =>
    settles_branch (settles_call hrun (hm.callable? hfound) arguments)
      (settles_lift (Run.quiet_fail _ _).keepsReturns)

end Calls

lemma settles_option {run : Expr → TracedRun Value} (hrun : ∀ value, Settles (run value) Clear)
    (value : Option Expr) : Settles (value.elim (pure .nil) run) Clear := by
  cases value with
  | none => exact settles_pure rfl
  | some value => exact hrun value

/-- With this much fuel runs settle what they return. -/
structure SettlesAt (fuel : Nat) : Prop where
  evaluate : ∀ value, Settles (evaluate fuel value) Clear
  execute : ∀ (call : Option Nat) (stated : Stmt) (allowed : Option Expr → Prop),
    stated.ReturnsFit allowed →
      Settles (execute fuel call stated) (Completion.Leaves call stated.returns)

lemma settles_evaluate {fuel : Nat} (ih : SettlesAt fuel) (value : Expr) :
    Settles (evaluate (fuel + 1) value) Clear := by
  cases value with
  | literal value => exact settles_pure rfl
  | grouping inner => exact ih.evaluate inner
  | unary op line operand =>
    exact (ih.evaluate operand).bind fun _ => settles_lift (Run.quiet_ofResult _ _).keepsReturns
  | binary op line left right =>
    exact (ih.evaluate left).bind fun _ => (ih.evaluate right).bind fun _ =>
      settles_lift (Run.quiet_ofResult _ _).keepsReturns
  | logical op line left right =>
    exact (ih.evaluate left).bind fun _ => settles_branch (settles_pure rfl) (ih.evaluate right)
  | read target => exact settles_lift (Run.quiet_read target).keepsReturns
  | assign target value =>
    exact (ih.evaluate value).bind fun value =>
      (settles_lift (Run.keepsReturns_assign target value)).yield fun _ => rfl
  | call callee arguments line =>
    exact (ih.evaluate callee).bind fun callee =>
      (settles_evaluateEach ih.evaluate arguments).bind fun given =>
        settles_callValue ih.execute callee given line
  | get object property =>
    exact (ih.evaluate object).bind fun object =>
      settles_lift (Run.keepsReturns_getProperty object property)
  | set object property value =>
    refine (ih.evaluate object).bind fun object => ?_
    cases object with
    | instanceAt self =>
      exact (ih.evaluate value).bind fun value =>
        (settles_lift (Run.quiet_setField self _ value).keepsReturns).yield fun _ => rfl
    | nil | boolean | number | text | native | functionAt | classAt =>
      exact settles_lift (Run.quiet_fail _ _).keepsReturns
  | this keyword => exact settles_lift (Run.quiet_read keyword).keepsReturns
  | super keyword method => exact settles_lift (Run.keepsReturns_getSuper keyword method)

lemma settles_return {fuel : Nat} (ih : SettlesAt fuel) (call : Option Nat) (keyword : Name)
    (value : Option Expr) :
    Settles (execute (fuel + 1) call (.ret keyword value))
      (Completion.Leaves call [⟨keyword, value⟩]) := by
  cases value with
  | none => exact settles_returned fun _ => rfl
  | some value => exact (ih.evaluate value).bind fun _ => settles_returned nofun

lemma settles_execute {fuel : Nat} (ih : SettlesAt fuel) (call : Option Nat) (stated : Stmt)
    (allowed : Option Expr → Prop) (hfit : stated.ReturnsFit allowed) :
    Settles (execute (fuel + 1) call stated) (Completion.Leaves call stated.returns) := by
  cases stated with
  | expression value => exact (ih.evaluate value).yield fun _ => .normal
  | print line value =>
    exact (ih.evaluate value).bind fun value => settles_look fun m _ =>
      (settles_print (m.textOf value) line).yield fun _ => .normal
  | varDecl name initial =>
    exact (settles_option ih.evaluate initial).bind fun value =>
      (settles_lift Run.keepsReturns_currentFrame).bind fun frame =>
        (settles_lift (Run.keepsReturns_define frame _ value)).yield fun _ => .normal
  | functionDecl decl =>
    exact (settles_lift (Run.keepsReturns_declareFunction hfit)).yield fun _ => .normal
  | classDecl decl =>
    exact (settles_lift (Run.keepsReturns_declareClass hfit)).yield fun _ => .normal
  | block body =>
    exact (settles_lift Run.keepsReturns_currentFrame).bind fun _ =>
      (settles_lift (Run.quiet_newFrame _ _).keepsReturns).bind fun _ =>
        settles_within (settles_sequence (fun stated => ih.execute call stated allowed) hfit)
  | ifElse condition thenBranch elseBranch =>
    refine (ih.evaluate condition).bind fun _ => ?_
    cases elseBranch with
    | none =>
      exact settles_branch (ih.execute call thenBranch allowed hfit) (settles_pure .normal)
    | some elseBranch =>
      obtain ⟨hthen, helse⟩ : thenBranch.ReturnsFit allowed ∧ elseBranch.ReturnsFit allowed := hfit
      exact settles_branch
        ((ih.execute call thenBranch allowed hthen).among (List.subset_append_left _ _))
        ((ih.execute call elseBranch allowed helse).among (List.subset_append_right _ _))
  | whileLoop condition body =>
    have hbody : body.ReturnsFit allowed := hfit
    have hround : Settles (execute fuel call body) (Completion.Leaves call body.returns) :=
      ih.execute call body allowed hbody
    have hagain := ih.execute call (.whileLoop condition body) allowed hfit
    exact (ih.evaluate condition).bind fun _ =>
      settles_branch (hround.next hagain fun _ => rfl) (settles_pure .normal)
  | ret keyword value => exact settles_return ih call keyword value

lemma settles_at (fuel : Nat) : SettlesAt fuel := by
  induction fuel with
  | zero => constructor <;> intros <;> exact settles_throw _
  | succ fuel ih => exact ⟨settles_evaluate ih, settles_execute ih⟩

lemma settles_normal {x : TracedRun Completion} {call : Option Nat} {stated : Stmt}
    (hfit : stated.ReturnsFit fun _ => False)
    (hx : Settles x (Completion.Leaves call stated.returns)) {f : Completion → TracedRun Unit}
    (hf : Settles (f .normal) Clear) : Settles (x >>= f) Clear := by
  refine hx.bind_of fun completion pending hleaves => ?_
  cases hleaves with
  | normal => exact ⟨rfl, hf⟩
  | returned hmem => exact (hfit.allowed_returns _ hmem).elim

lemma settles_program (fuel : Nat) {program : Program}
    (hfit : Stmt.ReturnsFitAll (fun _ => False) program) :
    Settles (executeProgram fuel program) Clear := by
  induction program with
  | nil => exact settles_pure rfl
  | cons stated rest ih =>
    obtain ⟨hstated, hrest⟩ :
      stated.ReturnsFit (fun _ => False) ∧ Stmt.ReturnsFitAll (fun _ => False) rest := hfit
    exact settles_normal hstated ((settles_at fuel).execute none stated _ hstated)
      ((settles_record (.finishes .nil) rfl).bind fun _ => ih hrest)

end TracedRun

end Lox
