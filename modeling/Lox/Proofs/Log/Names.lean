import Lox.Proofs.Log.Session
import Lox.Proofs.Scope.Places

/-! Which frames get names while a program runs: the current one, and by a declaration alone. -/

namespace Lox

section Forms

mutual

lemma Expr.formed_true (value : Expr) : value.Formed fun _ => True := by
  cases value with
  | literal | read | this | super => trivial
  | grouping inner | unary _ _ inner | get inner _ => exact Expr.formed_true inner
  | binary _ _ left right | logical _ _ left right | set left _ right =>
    exact ⟨Expr.formed_true left, Expr.formed_true right⟩
  | assign target value => exact ⟨trivial, Expr.formed_true value⟩
  | call callee arguments _ => exact ⟨Expr.formed_true callee, Expr.formedAll_true arguments⟩

lemma Expr.formedAll_true (values : List Expr) : Expr.FormedAll (fun _ => True) values := by
  cases values with
  | nil => trivial
  | cons value rest => exact ⟨Expr.formed_true value, Expr.formedAll_true rest⟩

end

variable {given : String → Prop} {place : Place} {stated : Stmt}

lemma Expr.not_stmt_of_places (hpart : place.part = .stmt stated) {around : List Enclosure}
    {value : Expr} : place ∉ value.places around := by
  intro h
  obtain ⟨node, -, rfl⟩ := List.mem_map.mp h
  simp at hpart

lemma Expr.not_stmt_of_placesOption (hpart : place.part = .stmt stated) {around : List Enclosure}
    {value : Option Expr} : place ∉ Expr.placesOption around value := by
  cases value with
  | none => simp [Expr.placesOption]
  | some value => exact Expr.not_stmt_of_places hpart

mutual

lemma Stmt.formed_of_places (hpart : place.part = .stmt stated) {around : List Enclosure}
    (outer : Stmt) (hf : outer.Formed given) (h : place ∈ outer.places around) :
    stated.Formed given := by
  have hself {rest : List Place} (h : place ∈ ⟨.stmt outer, around⟩ :: rest)
      (hrest : place ∈ rest → stated.Formed given) : stated.Formed given := by
    rcases List.mem_cons.mp h with rfl | h
    · rwa [← Part.stmt.inj hpart]
    · exact hrest h
  cases outer with
  | expression value | print _ value =>
    exact hself h fun h => absurd h (Expr.not_stmt_of_places hpart)
  | varDecl name initial | ret name initial =>
    exact hself h fun h => absurd h (Expr.not_stmt_of_placesOption hpart)
  | functionDecl decl => exact hself h fun h => FunctionDecl.formed_of_places hpart decl hf h
  | classDecl decl => exact hself h fun h => ClassDecl.formed_of_places hpart decl hf h
  | block body => exact hself h fun h => Stmt.formed_of_placesAll hpart body hf h
  | ifElse condition thenBranch elseBranch =>
    cases elseBranch with
    | none =>
      refine hself h fun h => ?_
      rcases List.mem_append.mp h with h | h
      · exact absurd h (Expr.not_stmt_of_places hpart)
      · exact Stmt.formed_of_places hpart thenBranch hf.2.2 h
    | some elseBranch =>
      obtain ⟨-, ⟨-, hthen⟩, -, helse⟩ := hf
      refine hself h fun h => ?_
      rcases List.mem_append.mp h with h | h
      · exact absurd h (Expr.not_stmt_of_places hpart)
      rcases List.mem_append.mp h with h | h
      · exact Stmt.formed_of_places hpart thenBranch hthen h
      · exact Stmt.formed_of_places hpart elseBranch helse h
  | whileLoop condition body =>
    refine hself h fun h => ?_
    rcases List.mem_append.mp h with h | h
    · exact absurd h (Expr.not_stmt_of_places hpart)
    · exact Stmt.formed_of_places hpart body hf.2.2 h

lemma Stmt.formed_of_placesAll (hpart : place.part = .stmt stated) {around : List Enclosure}
    (body : List Stmt) (hf : Stmt.FormedAll given body) (h : place ∈ Stmt.placesAll around body) :
    stated.Formed given := by
  cases body with
  | nil => simp [Stmt.placesAll] at h
  | cons first rest =>
    rcases List.mem_append.mp h with h | h
    · exact Stmt.formed_of_places hpart first hf.1 h
    · exact Stmt.formed_of_placesAll hpart rest hf.2 h

lemma FunctionDecl.formed_of_places (hpart : place.part = .stmt stated)
    {enclosure : FunctionDecl → Enclosure} {around : List Enclosure} (decl : FunctionDecl)
    (hf : decl.Formed given) (h : place ∈ decl.places enclosure around) : stated.Formed given := by
  obtain ⟨name, params, body⟩ := decl
  rcases List.mem_cons.mp h with rfl | h
  · simp at hpart
  · exact Stmt.formed_of_placesAll hpart body hf.2.2 h

lemma ClassDecl.formed_of_places (hpart : place.part = .stmt stated) {around : List Enclosure}
    (decl : ClassDecl) (hf : decl.Formed given) (h : place ∈ decl.places around) :
    stated.Formed given := by
  obtain ⟨name, superclass, methods⟩ := decl
  rcases List.mem_append.mp h with h | h
  · cases superclass with
    | none => simp at h
    | some superclass =>
      obtain rfl := List.mem_singleton.mp h
      simp at hpart
  · exact FunctionDecl.formed_of_placesAll hpart methods hf.2 h

lemma FunctionDecl.formed_of_placesAll (hpart : place.part = .stmt stated) {around : List Enclosure}
    (methods : List FunctionDecl) (hf : FunctionDecl.FormedAll given methods)
    (h : place ∈ FunctionDecl.placesAll around methods) : stated.Formed given := by
  cases methods with
  | nil => simp [FunctionDecl.placesAll] at h
  | cons decl rest =>
    rcases List.mem_append.mp h with h | h
    · exact FunctionDecl.formed_of_places hpart decl hf.1 h
    · exact FunctionDecl.formed_of_placesAll hpart rest hf.2 h

end

end Forms

/-- The name that a statement has declared when it has ended so: one that fails has declared none. -/
def Stmt.declared? : Stmt → Except Halt Completion → Option String
  | .varDecl name _, .ok .normal => some name.text
  | .functionDecl decl, .ok .normal => some decl.name.text
  | .classDecl decl, .ok .normal => some decl.name.text
  | _, _ => none

namespace Stmt

lemma declared?_error (stated : Stmt) (halt : Halt) : stated.declared? (.error halt) = none := by
  cases stated <;> rfl

lemma declared?_of_not_isDeclaration {stated : Stmt} (h : stated.isDeclaration = false)
    (result : Except Halt Completion) : stated.declared? result = none := by
  cases stated with
  | varDecl | functionDecl | classDecl => simp [isDeclaration] at h
  | expression | print | block | ifElse | whileLoop | ret => rfl

end Stmt

namespace Frames

variable {f g h : Frames} {current : FrameRef} {gained : Option String}

/-- Of the frames that there were, each is enclosed by the same one and has the same names, but that the
current one has got the name, if there is one. -/
structure Gains (current : FrameRef) (gained : Option String) (f g : Frames) : Prop where
  size : f.all.size ≤ g.all.size
  enclosing : ∀ ref, ref.index < f.all.size → g.enclosing? ref = f.enclosing? ref
  names : ∀ ref name, ref.index < f.all.size →
    (g.binds ref name = true ↔ f.binds ref name = true ∨ ref = current ∧ gained = some name)

lemma Spares.gains (hfg : Spares none f g) (current : FrameRef) : Gains current none f g where
  size := hfg.size
  enclosing := hfg.enclosing
  names ref name hr := by simp [hfg.binds_iff hr (by simp)]

lemma Gains.spares (hfg : Gains current gained f g) (hgh : Spares none g h) :
    Gains current gained f h where
  size := Nat.le_trans hfg.size hgh.size
  enclosing ref hr := by
    rw [hgh.enclosing ref (Nat.lt_of_lt_of_le hr hfg.size), hfg.enclosing ref hr]
  names ref name hr := by
    rw [hgh.binds_iff (Nat.lt_of_lt_of_le hr hfg.size) (by simp), hfg.names ref name hr]

lemma Gains.define (hfg : Gains current gained f g) {name : String} (hg : ∀ n ∈ gained, n = name)
    (value : Value) : Gains current (some name) f (g.define current name value) where
  size := Nat.le_trans hfg.size (Nat.le_of_eq (size_define ..).symm)
  enclosing ref hr := (enclosing?_define ..).trans (hfg.enclosing ref hr)
  names ref n hr := by
    have hr' := Nat.lt_of_lt_of_le hr hfg.size
    have hn : gained = some n → n = name := fun heq => hg n heq
    rw [binds_define_iff, hfg.names ref n hr]
    simp only [hr', and_true, Option.some.injEq, @eq_comm _ current ref, @eq_comm _ name n]
    tauto

end Frames

namespace Run

/-- A class declaration fails before it has declared a name, or not at all. -/
lemma declareClass_gains (decl : ClassDecl) (m : Machine) :
    (∃ halt, outcome (declareClass decl) m = (.error halt, m)) ∨
      ∃ m', outcome (declareClass decl) m = (.ok (), m') ∧
        Frames.Gains m.current (some decl.name.text) m.frames m'.frames := by
  have hsuperclass := outcome_superclassOf decl.superclass m
  rw [declareClass_eq, outcome_bind]
  rcases hs : outcome (decl.superclass.mapM superclassOf) m with ⟨halt | superclass, m₁⟩
  · rw [hs] at hsuperclass
    exact .inl ⟨halt, congrArg (Prod.mk _) hsuperclass⟩
  · obtain rfl : m₁ = m := by rwa [hs] at hsuperclass
    have hnil : Frames.Gains m₁.current (some decl.name.text) m₁.frames
        (m₁.frames.define m₁.current decl.name.text .nil) :=
      ((Frames.Spares.refl none m₁.frames).gains m₁.current).define (by simp) .nil
    refine .inr ?_
    cases superclass with
    | none => exact ⟨_, rfl, hnil.define (by simp) _⟩
    | some ref => exact ⟨_, rfl, (hnil.spares (Frames.spares_push _ _)).define (by simp) _⟩

end Run

namespace LoggedRun

variable {given : String → Prop} {t : Log}

/-- A statement that declares a name has done so when it has ended in the normal way; no other one has, and
none that fails. -/
lemma execute_gains (ht : t.Sound given) {stated : Stmt} (hf : stated.Formed given) (fuel : Nat) :
    Frames.Gains t.machine.current (stated.declared? (outcome (Lox.execute fuel stated) t.machine).1)
      t.machine.frames (outcome (Lox.execute fuel stated) t.machine).2.frames := by
  have hkept {result : Except Halt Completion} {m : Machine}
      (hnone : stated.declared? result = none) (hframes : Frames.Spares none t.machine.frames m.frames) :
      Frames.Gains t.machine.current (stated.declared? result) t.machine.frames m.frames := by
    rw [hnone]
    exact hframes.gains _
  cases fuel with
  | zero => exact hkept (stated.declared?_error _) (.refl none _)
  | succ fuel =>
    cases hd : stated.isDeclaration with
    | false =>
      have hrun := (soundly given (fuel + 1)).execute t stated ht hf
      rw [Stmt.freeFrame, hd] at hrun
      rw [hrun.erases]
      exact hkept (Stmt.declared?_of_not_isDeclaration hd _) hrun.goes.frames
    | true =>
      cases stated with
      | varDecl name initial =>
        have hinitial := option_keeps (soundly given fuel).evaluate ht hf.2
        have hgains := hinitial.goes.frames.gains t.machine.current
        have hcurrent := hinitial.goes.current
        have hstep : outcome (Lox.execute (fuel + 1) (.varDecl name initial)) t.machine =
            outcome (initial.elim (pure .nil) (Lox.evaluate fuel) >>= fun value =>
              Run.currentFrame >>= fun frame => Run.define frame name.text value >>= fun _ =>
                pure Completion.normal) t.machine := rfl
        rw [hstep, outcome_bind, hinitial.erases]
        cases (outcome (initial.elim (pure .nil) (LoggedRun.evaluate fuel)) t).1 with
        | error halt => exact hgains
        | ok value =>
          change Frames.Gains _ (some name.text) _ (Frames.define _ _ name.text value)
          rw [hcurrent]
          exact hgains.define (by simp) value
      | functionDecl decl =>
        exact ((Frames.Spares.refl none _).gains _).define (by simp) _
      | classDecl decl =>
        rcases Run.declareClass_gains decl t.machine with ⟨halt, hrun⟩ | ⟨m', hrun, hgains⟩
        all_goals
          have hstep : outcome (Lox.execute (fuel + 1) (.classDecl decl)) t.machine =
              outcome (Run.declareClass decl >>= fun _ => pure Completion.normal) t.machine := rfl
          rw [hstep, outcome_bind, hrun]
        · exact (Frames.Spares.refl none _).gains _
        · exact hgains
      | expression | print | block | ifElse | whileLoop | ret => simp [Stmt.isDeclaration] at hd

end LoggedRun

namespace Log

/-- Programs that are made of some tokens are run one after another, with any binding tables. On each machine
that something is run on, with any table: evaluating an expression, however that ends, leaves each frame with the
names that it had, and enclosed as it was; and executing a statement that stands anywhere in a parsed program
does so too, but that the current frame gets the name that the statement declares, if it ends in the normal
way. -/
theorem names_gained (limit : Option Nat) (reading : Nat → Float) (jobs : List Job)
    (hparsed : ∀ job ∈ jobs, job.IsParsed) :
    let t := jobs.foldl Log.perform (Log.initial limit reading)
    t.machine = jobs.foldl Machine.perform (.initial limit reading) ∧
      ∀ reached, t.Reached reached → ∀ (table : BindingTable) (fuel : Nat),
        let m := { reached.machine with table }
        (∀ value, Frames.Gains m.current none m.frames (outcome (evaluate fuel value) m).2.frames) ∧
        ∀ job : Job, job.IsParsed → ∀ place ∈ job.program.places, ∀ stated,
          place.part = .stmt stated →
            let ended := outcome (execute fuel stated) m
            Frames.Gains m.current (stated.declared? ended.1) m.frames ended.2.frames := by
  intro t
  have hformed (job : Job) (hjob : job.IsParsed) : Stmt.FormedAll (fun _ => True) job.program := by
    obtain ⟨tokens, n, nextId, hparse⟩ := hjob
    exact Program.formed_of_parse hparse fun _ _ _ => trivial
  obtain ⟨hsound, hmachine⟩ := (Sound.initial (fun _ => True) limit reading).foldl_perform
    fun job hjob => hformed job (hparsed job hjob)
  refine ⟨hmachine, fun reached hreached table fuel => ⟨fun value => ?_, ?_⟩⟩
  · have hreached := (hsound.reached hreached).setTable table
    have hrun := (LoggedRun.soundly (fun _ => True) fuel).evaluate _ value hreached value.formed_true
    rw [hrun.erases]
    exact hrun.goes.frames.gains _
  · intro job hjob place hplace stated hpart
    have hreached := (hsound.reached hreached).setTable table
    have hf := Stmt.formed_of_placesAll hpart job.program (hformed job hjob) hplace
    exact LoggedRun.execute_gains hreached hf fuel

theorem names_gained_of_initializing :
    let t := [initializing].foldl Log.perform (Log.initial none fun _ => 0)
    let m := { t.machine with table := ∅ }
    m.frames.binds .globals "A" = true ∧
      ∀ value, Frames.Gains m.current none m.frames (outcome (evaluate 9 value) m).2.frames := by
  have hparsed : initializing.IsParsed := by
    obtain ⟨_, tokens, n, nextId, -, hparse⟩ := initializing_isScanned
    exact ⟨tokens, n, nextId, hparse⟩
  have hall := names_gained none (fun _ => 0) [initializing] (by simpa using hparsed)
  exact ⟨by cbv, (hall.2 _ (.inr rfl) ∅ 9).1⟩

end Log

end Lox
