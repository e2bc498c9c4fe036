import Lox.Proofs.Identity.Distinct
import Lox.Proofs.Trace.Returns
import Lox.Proofs.Trace.Session

/-! Runs of accepted programs: each value that is returned ends the call that it is returned in, then and
there, and no other. -/

namespace Lox

namespace Deed

/-- The call that comes to its end. -/
def ended? : Deed → Option Nat
  | ends call .. => some call
  | prints .. | returns .. | finishes .. => none

/-- Whatever is returned ends the function that the return statement is of, and initializers end with
nothing. -/
inductive Settled : List Deed → Prop
  | nil : Settled []
  | prints {line : Nat} {bytes : ByteArray} {rest : List Deed} :
      Settled rest → Settled (.prints line bytes :: rest)
  | falls {call : Nat} {closure : Closure} {result : Value} {rest : List Deed} :
      (closure.isInitializer = false → result = .nil) → Settled rest →
        Settled (.ends call closure .normal result :: rest)
  | returns {call : Nat} {closure : Closure} {stated : Return} {value result : Value}
      {rest : List Deed} : stated ∈ Stmt.returnsAll closure.decl.body →
      (closure.isInitializer = true → value = .nil) →
      (closure.isInitializer = false → result = value) → Settled rest →
        Settled (.returns (some call) stated value :: .ends call closure (.returned value) result :: rest)
  | finishes {stated : Stmt} {rest : List Deed} :
      Settled rest → Settled (.finishes stated .normal :: rest)

namespace Settled

variable {deeds more : List Deed}

lemma append (h : Settled deeds) (h' : Settled more) : Settled (deeds ++ more) := by
  induction h with
  | nil => exact h'
  | prints _ ih => exact .prints ih
  | falls hresult _ ih => exact .falls hresult ih
  | returns hmem hnil hresult _ ih => exact .returns hmem hnil hresult ih
  | finishes _ ih => exact .finishes ih

lemma finishes_normal (h : Settled deeds) {stated : Stmt} {completion : Completion}
    (hmem : .finishes stated completion ∈ deeds) : completion = .normal := by
  induction h with
  | nil => simp at hmem
  | prints _ ih => simp_all
  | falls _ _ ih => simp_all
  | returns _ _ _ _ ih => simp_all
  | finishes _ ih => grind

lemma ends_with (h : Settled deeds) {call : Nat} {closure : Closure} {completion : Completion}
    {result : Value} (hmem : .ends call closure completion result ∈ deeds) :
    (closure.isInitializer = true → completion = .normal ∨ completion = .returned .nil) ∧
      (closure.isInitializer = false → result = completion.value) := by
  induction h with
  | nil => simp at hmem
  | prints _ ih => simp_all
  | falls hresult _ ih => grind [Completion.value]
  | returns _ hnil hresult _ ih => grind [Completion.value]
  | finishes _ ih => simp_all

lemma after_returns (h : Settled deeds) {before behind : List Deed} {call : Option Nat}
    {stated : Return} {value : Value} (heq : deeds = before ++ .returns call stated value :: behind) :
    ∃ number closure result rest, call = some number ∧
      stated ∈ Stmt.returnsAll closure.decl.body ∧
      behind = .ends number closure (.returned value) result :: rest := by
  induction h generalizing before with
  | nil => simp at heq
  | prints _ ih | falls _ _ ih | finishes _ ih =>
    obtain ⟨-, hfirst⟩ | ⟨before, -, hrest⟩ := List.cons_eq_append_iff.mp heq
    · simp at hfirst
    · exact ih hrest
  | @returns number closure _ _ result rest hmem _ _ _ ih =>
    obtain ⟨-, hfirst⟩ | ⟨before, -, hends⟩ := List.cons_eq_append_iff.mp heq
    · simp only [List.cons.injEq, returns.injEq] at hfirst
      obtain ⟨⟨rfl, rfl, rfl⟩, rfl⟩ := hfirst
      exact ⟨number, closure, result, rest, rfl, hmem, rfl⟩
    · obtain ⟨-, hfirst⟩ | ⟨before, -, hrest⟩ := List.cons_eq_append_iff.mp hends
      · simp at hfirst
      · exact ih hrest

lemma before_ends (h : Settled deeds) {before behind : List Deed} {call : Nat} {closure : Closure}
    {value result : Value}
    (heq : deeds = before ++ .ends call closure (.returned value) result :: behind) :
    ∃ earlier stated, before = earlier ++ [.returns (some call) stated value] := by
  induction h generalizing before with
  | nil => simp at heq
  | prints _ ih | falls _ _ ih | finishes _ ih =>
    obtain ⟨-, hfirst⟩ | ⟨before, rfl, hrest⟩ := List.cons_eq_append_iff.mp heq
    · simp at hfirst
    · obtain ⟨earlier, stated, rfl⟩ := ih hrest
      exact ⟨_ :: earlier, stated, rfl⟩
  | @returns _ _ stated _ _ _ _ _ _ _ ih =>
    obtain ⟨-, hfirst⟩ | ⟨before, rfl, hends⟩ := List.cons_eq_append_iff.mp heq
    · simp at hfirst
    · obtain ⟨rfl, hfirst⟩ | ⟨before, rfl, hrest⟩ := List.cons_eq_append_iff.mp hends
      · simp only [List.cons.injEq, ends.injEq, Completion.returned.injEq] at hfirst
        obtain ⟨⟨rfl, -, rfl, -⟩, -⟩ := hfirst
        exact ⟨[], stated, rfl⟩
      · obtain ⟨earlier, stated, rfl⟩ := ih hrest
        exact ⟨_ :: _ :: earlier, stated, rfl⟩

end Settled

end Deed

/-- What a statement leaves to be settled that ends so. A return without a value is one of nil. -/
inductive Completion.Leaves (call : Option Nat) (among : List Return) :
    Completion → List Deed → Prop
  | normal : Leaves call among .normal []
  | returned {stated : Return} {value : Value} : stated ∈ among →
      (stated.value = none → value = .nil) →
        Leaves call among (.returned value) [.returns call stated value]

lemma Completion.Leaves.mono {call : Option Nat} {among more : List Return}
    {completion : Completion} {pending : List Deed} (h : completion.Leaves call among pending)
    (hsub : among ⊆ more) : completion.Leaves call more pending := by
  cases h with
  | normal => exact .normal
  | returned hmem hnil => exact .returned (hsub hmem) hnil

lemma Completion.Leaves.settled {number : Nat} {closure : Closure} {completion : Completion}
    {pending : List Deed} (hc : closure.ReturnsFit)
    (h : completion.Leaves (some number) (Stmt.returnsAll closure.decl.body) pending) {result : Value}
    (hresult : closure.isInitializer = false → result = completion.value) :
    Deed.Settled (pending ++ [.ends number closure completion result]) := by
  cases h with
  | normal => exact .falls hresult .nil
  | @returned stated value hmem hnil =>
    have hfit : mayReturn closure.isInitializer stated.value :=
      Stmt.ReturnsFitAll.allowed_returns hc stated hmem
    exact .returns hmem (fun hinitializer => hnil (hfit hinitializer)) hresult .nil

lemma Completion.Leaves.ended?_eq {call : Option Nat} {among : List Return} {completion : Completion}
    {pending : List Deed} (h : completion.Leaves call among pending) :
    pending.filterMap Deed.ended? = [] := by
  cases h <;> rfl

namespace TracedRun

variable {α β : Type}

/-- From one trace to another there are added deeds that are settled, and behind them those that are
not yet. -/
structure Brings (t : Trace) (pending : List Deed) (t' : Trace) : Prop where
  returnsFit : t'.machine.ReturnsFit
  deeds : ∃ deeds, t'.deeds = t.deeds ++ deeds ++ pending ∧ Deed.Settled deeds ∧
    Spends t.calls (deeds.filterMap Deed.ended?) t'.calls

lemma brings_machine {t : Trace} {m : Machine} (h : m.ReturnsFit) :
    Brings t [] { t with machine := m } :=
  ⟨h, [], by simp, .nil, spends_nil (Nat.le_refl _)⟩

lemma Brings.trans {t t' t'' : Trace} {pending : List Deed} (h : Brings t [] t')
    (h' : Brings t' pending t'') : Brings t pending t'' := by
  obtain ⟨deeds, hdeeds, hsettled, hspends⟩ := h.deeds
  obtain ⟨more, hmore, hsettled', hspends'⟩ := h'.deeds
  refine ⟨h'.returnsFit, deeds ++ more, ?_, hsettled.append hsettled', ?_⟩
  · rw [hmore, hdeeds, List.append_nil, List.append_assoc t.deeds]
  · rw [List.filterMap_append]
    exact hspends.append hspends'

/-- A run that halts leaves nothing to be settled. -/
def Ends (leaves : α → List Deed → Prop) : Except Halt α → List Deed → Prop
  | .ok a, pending => leaves a pending
  | .error _, pending => pending = []

/-- However the run ends, it adds deeds that are settled, and leaves what it may. -/
def Settles (x : TracedRun α) (leaves : α → List Deed → Prop) : Prop :=
  ∀ t : Trace, t.machine.ReturnsFit →
    ∃ pending, Ends leaves (outcome x t).1 pending ∧ Brings t pending (outcome x t).2

def Clear (_ : α) (pending : List Deed) : Prop :=
  pending = []

lemma Ends.eq_nil {result : Except Halt α} {pending : List Deed} (h : Ends Clear result pending) :
    pending = [] := by
  cases result <;> exact h

section Rules

variable {leaves : α → List Deed → Prop}

lemma settles_pure {a : α} (h : leaves a []) : Settles (pure a) leaves :=
  fun _ ht => ⟨[], h, brings_machine ht⟩

lemma settles_throw (halt : Halt) : Settles (throw halt) leaves :=
  fun _ ht => ⟨[], rfl, brings_machine ht⟩

lemma Settles.bind_of {before : β → List Deed → Prop} {x : TracedRun β} {f : β → TracedRun α}
    (hx : Settles x before)
    (hf : ∀ b pending, before b pending → pending = [] ∧ Settles (f b) leaves) :
    Settles (x >>= f) leaves := by
  intro t ht
  obtain ⟨pending, hends, hbrings⟩ := hx t ht
  rw [outcome_bind]
  rcases ho : outcome x t with ⟨halt | b, t'⟩ <;> rw [ho] at hends hbrings
  · exact ⟨pending, hends, hbrings⟩
  · obtain ⟨rfl, hrest⟩ := hf b pending hends
    obtain ⟨pending, hends', hbrings'⟩ := hrest t' hbrings.returnsFit
    exact ⟨pending, hends', hbrings.trans hbrings'⟩

lemma Settles.bind {x : TracedRun β} {f : β → TracedRun α} (hx : Settles x Clear)
    (hf : ∀ b, Settles (f b) leaves) : Settles (x >>= f) leaves :=
  hx.bind_of fun b _ hclear => ⟨hclear, hf b⟩

lemma Settles.yield {x : TracedRun β} (hx : Settles x Clear) {f : β → α}
    (hf : ∀ b, leaves (f b) []) : Settles (x >>= fun b => pure (f b)) leaves :=
  hx.bind fun b => settles_pure (hf b)

lemma Settles.next {x : TracedRun Completion} {f : Completion → TracedRun Completion}
    {call : Option Nat} {among : List Return} (hx : Settles x (Completion.Leaves call among))
    (hnormal : Settles (f .normal) (Completion.Leaves call among))
    (hreturned : ∀ value, f (.returned value) = pure (.returned value)) :
    Settles (x >>= f) (Completion.Leaves call among) := by
  intro t ht
  obtain ⟨pending, hends, hbrings⟩ := hx t ht
  rw [outcome_bind]
  rcases ho : outcome x t with ⟨halt | completion, t'⟩ <;> rw [ho] at hends hbrings
  · exact ⟨pending, hends, hbrings⟩
  · cases completion with
    | returned value =>
      -- Nothing is run, so that what is pending stays so, up to the end of the call.
      dsimp only
      rw [hreturned]
      exact ⟨pending, hends, hbrings⟩
    | normal =>
      cases hends with
      | normal =>
        obtain ⟨pending, hends', hbrings'⟩ := hnormal t' hbrings.returnsFit
        exact ⟨pending, hends', hbrings.trans hbrings'⟩

lemma settles_branch {p : Prop} [Decidable p] {x y : TracedRun α} (hx : Settles x leaves)
    (hy : Settles y leaves) : Settles (if p then x else y) leaves := by
  split
  · exact hx
  · exact hy

lemma settles_lift {x : Run α} (h : Run.KeepsReturns x) : Settles (lift x) Clear := by
  intro t ht
  rw [outcome_lift]
  refine ⟨[], ?_, brings_machine (h t.machine ht)⟩
  cases (outcome x t.machine).1 <;> rfl

lemma settles_look {seen : Machine → β} {f : β → TracedRun α}
    (h : ∀ m : Machine, m.ReturnsFit → Settles (f (seen m)) leaves) :
    Settles (look seen >>= f) leaves :=
  fun t ht => h t.machine ht t ht

lemma settles_require {found : Option β} {cause : RuntimeError.Cause} {line : Nat}
    {f : β → TracedRun α} (h : ∀ b, found = some b → Settles (f b) leaves) :
    Settles (lift (Run.require found cause line) >>= f) leaves := by
  cases found with
  | none => exact settles_throw _
  | some b => exact h b rfl

lemma settles_within {frame : FrameRef} {body : TracedRun α} (h : Settles body leaves) :
    Settles (within frame body) leaves := by
  intro t ht
  obtain ⟨pending, hends, hbrings⟩ := h { t with machine.current := frame } (ht.of_eq rfl rfl)
  rw [outcome_within]
  exact ⟨pending, hends, hbrings.returnsFit.of_eq rfl rfl, hbrings.deeds⟩

lemma settles_record {deed : Deed} (h : Deed.Settled [deed]) (hcall : deed.ended? = none) :
    Settles (record deed) Clear := by
  intro t ht
  refine ⟨[], rfl, ht, [deed], by simp [record], h, ?_⟩
  rw [List.filterMap_cons_none hcall]
  exact spends_nil (Nat.le_refl _)

lemma settles_returned {call : Option Nat} {stated : Return} {value : Value}
    (h : stated.value = none → value = .nil) :
    Settles (record (.returns call stated value) >>= fun _ => pure (.returned value))
      (Completion.Leaves call [stated]) := by
  intro t ht
  refine ⟨[.returns call stated value], .returned (List.mem_singleton_self stated) h, ht, [], ?_, .nil,
    spends_nil (Nat.le_refl _)⟩
  rw [List.append_nil]
  rfl

lemma settles_print (text : String) (line : Nat) : Settles (print text line) Clear :=
  (settles_record (.prints .nil) rfl).bind fun _ => settles_lift (Run.quiet_print text line).keepsReturns

lemma Settles.among {x : TracedRun Completion} {call : Option Nat} {among more : List Return}
    (h : Settles x (Completion.Leaves call among)) (hsub : among ⊆ more) :
    Settles x (Completion.Leaves call more) := by
  intro t ht
  obtain ⟨pending, hends, hbrings⟩ := h t ht
  refine ⟨pending, ?_, hbrings⟩
  cases ho : (outcome x t).1 with
  | error halt => rwa [ho] at hends
  | ok completion =>
    rw [ho] at hends
    exact Completion.Leaves.mono hends hsub

lemma settles_sequence {run : Stmt → TracedRun Completion} {call : Option Nat}
    {allowed : Option Expr → Prop}
    (hrun : ∀ stated : Stmt, stated.ReturnsFit allowed →
      Settles (run stated) (Completion.Leaves call stated.returns))
    {body : List Stmt} (hb : Stmt.ReturnsFitAll allowed body) :
    Settles (sequence run body) (Completion.Leaves call (Stmt.returnsAll body)) := by
  induction body with
  | nil => exact settles_pure .normal
  | cons stated rest ih =>
    obtain ⟨hstated, hrest⟩ : stated.ReturnsFit allowed ∧ Stmt.ReturnsFitAll allowed rest := hb
    exact ((hrun stated hstated).among (List.subset_append_left _ _)).next
      ((ih hrest).among (List.subset_append_right _ _)) fun _ => rfl

lemma settles_evaluateEach {run : Expr → TracedRun Value}
    (hrun : ∀ value, Settles (run value) Clear) (values : List Expr) :
    Settles (evaluateEach run values) Clear := by
  induction values with
  | nil => exact settles_pure rfl
  | cons value rest ih => exact (hrun value).bind fun _ => ih.yield fun _ => rfl

end Rules

end TracedRun

end Lox
