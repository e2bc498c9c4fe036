import Lox.Proofs.Trace.Settling

/-! In a session only accepted programs run. So a value that is returned ends the call that it is returned
in and no other, and initializers return none. -/

namespace Lox

/-- What is done in a run by which no value goes where it should not. -/
structure Deed.ReturnsSound (deeds : List Deed) : Prop where
  /-- No statement of the program itself returns. -/
  program : ∀ stated completion, .finishes stated completion ∈ deeds → completion = .normal
  /-- The body of an initializer ends in the normal way, or returns nil. -/
  initializer : ∀ call closure completion result, .ends call closure completion result ∈ deeds →
    closure.isInitializer = true → completion = .normal ∨ completion = .returned .nil
  /-- A call of any other function has the result that its body has. -/
  function : ∀ call closure completion result, .ends call closure completion result ∈ deeds →
    closure.isInitializer = false → result = completion.value
  /-- What is returned ends the call of the very function that the return statement is in. -/
  returned : ∀ before call stated value behind, deeds = before ++ .returns call stated value :: behind →
    ∃ number closure result rest, call = some number ∧
      stated ∈ Stmt.returnsAll closure.decl.body ∧
      behind = .ends number closure (.returned value) result :: rest
  /-- No call ends with a value but that which has just been returned in it. -/
  ended : ∀ before call closure value result behind,
    deeds = before ++ .ends call closure (.returned value) result :: behind →
      ∃ earlier stated, before = earlier ++ [.returns (some call) stated value]
  /-- No call ends twice. -/
  calls : (deeds.filterMap Deed.ended?).Nodup

lemma Deed.Settled.returnsSound {deeds : List Deed} (h : Settled deeds)
    (hcalls : (deeds.filterMap ended?).Nodup) : ReturnsSound deeds where
  program _ _ hmem := h.finishes_normal hmem
  initializer _ _ _ _ hmem := (h.ends_with hmem).1
  function _ _ _ _ hmem := (h.ends_with hmem).2
  returned _ _ _ _ _ heq := h.after_returns heq
  ended _ _ _ _ _ _ heq := h.before_ends heq
  calls := hcalls

namespace Session

lemma returnsSound_traced {session : Session} (h : session.machine.ReturnsFit) (fuel : Nat)
    (source : String) :
    (session.run fuel source).2.machine.ReturnsFit ∧
      Deed.ReturnsSound (session.traced fuel source).2 := by
  cases hsource : Program.ofSource? session.nextId source with
  | none =>
    obtain ⟨outcome, nextId, hrun⟩ := run_of_no_source fuel hsource
    have hmachine : (session.run fuel source).2.machine = session.machine :=
      congrArg (·.2.machine) (hrun session.machine)
    rw [traced_of_no_source fuel hsource, hmachine]
    exact ⟨h, Deed.Settled.nil.returnsSound List.nodup_nil⟩
  | some found =>
    obtain ⟨program, nextId, distances⟩ := found
    have hfit := Program.returnsFit_of_resolve (Program.resolve_of_source hsource)
    have hstart : (session.start distances).machine.ReturnsFit := h.of_eq rfl rfl
    obtain ⟨pending, hends, hbrings⟩ :=
      TracedRun.settles_program fuel hfit (session.start distances) hstart
    obtain ⟨deeds, hdeeds, hsettled, hspends⟩ := hbrings.deeds
    have hadded : (session.start distances).deeds ++ deeds ++ pending = deeds := by
      rw [hends.eq_nil, List.append_nil]
      rfl
    rw [← session.traced_fst fuel source, traced_of_source hsource]
    dsimp only
    rw [hdeeds, hadded]
    exact ⟨hbrings.returnsFit, hsettled.returnsSound hspends.nodup⟩

lemma returnsFit_runAll {session : Session} (h : session.machine.ReturnsFit) (fuel : Nat)
    (sources : List String) : (session.runAll fuel sources).2.machine.ReturnsFit := by
  induction sources generalizing session with
  | nil => exact h
  | cons source rest ih => exact ih (returnsSound_traced h fuel source).1

section Passing

/-- A text with a class whose initializer calls a function in it, which returns what it is given. -/
def passingText : String :=
  "class C \x7b init(x) \x7b fun pass(y) \x7b return y; \x7d pass(x); \x7d \x7d C(given);"

def passed : Return :=
  ⟨⟨"return", 1⟩, some (.read ⟨0, ⟨"y", 1⟩⟩)⟩

def passing : FunctionDecl :=
  ⟨⟨"pass", 1⟩, [⟨"y", 1⟩], [.ret passed.keyword passed.value]⟩

def passingInitializer : FunctionDecl :=
  ⟨⟨"init", 1⟩, [⟨"x", 1⟩], [.functionDecl passing,
    .expression (.call (.read ⟨1, ⟨"pass", 1⟩⟩) [.read ⟨2, ⟨"x", 1⟩⟩] 1)]⟩

/-- A session at its beginning, with a global name for a value. -/
def giving (limit : Option Nat) (reading : Nat → Float) (value : Value) : Session :=
  let session := initial limit reading
  { session with machine.frames := session.machine.frames.define .globals "given" value }

set_option maxRecDepth 4000 in
lemma traced_passing (limit : Option Nat) (reading : Nat → Float) (value : Value) :
    ((giving limit reading value).traced 8 passingText).2 =
      [.finishes (.classDecl ⟨⟨"C", 1⟩, none, [passingInitializer]⟩) .normal,
        .returns (some 1) passed value,
        .ends 1 ⟨passing, ⟨2⟩, false⟩ (.returned value) value,
        .ends 0 ⟨passingInitializer, ⟨1⟩, true⟩ .normal (.instanceAt ⟨0⟩),
        .finishes (.expression (.call (.read ⟨3, ⟨"C", 1⟩⟩) [.read ⟨4, ⟨"given", 1⟩⟩] 1)) .normal] := by
  cbv

end Passing

/-- Source texts are run one after another, and then one more. In its run no statement of the program
itself returns, the body of an initializer ends with nothing but nil, and what is returned ends the call of
the function that the return statement is in, and no other call. A function in an initializer is resolved
as one in any other function, and it may return any value. -/
theorem returns_sound (fuel : Nat) (limit : Option Nat) (reading : Nat → Float)
    (before : List String) (source : String) :
    let session := ((initial limit reading).runAll fuel before).2
    (session.traced fuel source).1 = session.run fuel source ∧
      Deed.ReturnsSound (session.traced fuel source).2 ∧
      (∀ (decl : FunctionDecl) (context : Context) (scopes : List Scope) (other : EnclosingFunction),
        (Stmt.functionDecl decl).resolve { context with function := .initializer } scopes =
          (Stmt.functionDecl decl).resolve { context with function := other } scopes) ∧
      ∀ value, ∃ outer inner stated self,
        outer.isInitializer = true ∧ Stmt.functionDecl inner.decl ∈ outer.decl.body ∧
          [.returns (some 1) stated value, .ends 1 inner (.returned value) value,
            .ends 0 outer .normal self] <:+: ((giving limit reading value).traced 8 passingText).2 := by
  intro session
  have hsession : session.machine.ReturnsFit :=
    returnsFit_runAll (Machine.returnsFit_initial limit reading) fuel before
  refine ⟨session.traced_fst fuel source, (returnsSound_traced hsession fuel source).2,
    fun _ _ _ _ => rfl, fun value => ?_⟩
  rw [traced_passing]
  exact ⟨⟨passingInitializer, ⟨1⟩, true⟩, ⟨passing, ⟨2⟩, false⟩, passed, .instanceAt ⟨0⟩, rfl,
    List.mem_cons_self .., [_], [_], rfl⟩

end Session

end Lox
