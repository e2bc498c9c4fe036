import Lox.Proofs.Log.Preservation
import Lox.Proofs.Session.Reports
import Mathlib

/-! Programs run with a log, one after another and with any binding tables. -/

namespace Lox

def Entry.initialized? : Entry → Option Value
  | .ends closure _ result => if closure.isInitializer then some result else none
  | .begins _ | .makes .. => none

/-- A program to be run, the table by which its names are bound, and the fuel granted to it. -/
structure Job where
  fuel : Nat
  table : BindingTable
  program : Program

/-- The program is one that the parser makes of some tokens. -/
def Job.IsParsed (job : Job) : Prop :=
  ∃ tokens n nextId, Program.parse tokens n = (.ok job.program, nextId)

/-- The program is one that is made of a source text. -/
def Job.IsScanned (job : Job) : Prop :=
  ∃ source tokens n nextId, Token.scan source = .ok tokens ∧
    Program.parse tokens n = (.ok job.program, nextId)

def Machine.perform (m : Machine) (job : Job) : Machine :=
  (outcome (Program.execute job.fuel job.program) { m with table := job.table }).2

/-- What a session runs with the names bound as given is such a job. -/
lemma Session.machine_runBound (fuel : Nat) (session : Session) (program : Program)
    (distances : List Distance) : (session.runBound fuel program distances).2.machine =
      session.machine.perform ⟨fuel, session.machine.table.extend distances, program⟩ := by
  rw [runBound_eq]
  rfl

/-- A class that is called yields the instance made for the call, whatever its initializer does. -/
lemma Run.eq_of_construct {execute : Stmt → Run Completion} {ref : ClassRef}
    {initializer : Option Closure} {arguments : List Value} {m m' : Machine} {value : Value}
    (h : outcome (call execute (.construct ref initializer) arguments) m = (.ok value, m')) :
    value = .instanceAt ⟨m.instances.size⟩ := by
  have hyields : Yields (newInstance ref >>= fun self =>
      (match initializer with
        | some method => bound method self >>= fun closure =>
          invoke execute closure arguments >>= fun _ => pure (.instanceAt self)
        | none => pure (.instanceAt self))) m value m' := by
    cases initializer <;> exact h
  obtain ⟨self, m₁, hself, hrest⟩ := yields_bind.mp hyields
  obtain ⟨hself, -⟩ := Prod.mk.inj (yields_modifyGet.mp hself)
  subst hself
  cases initializer with
  | none => exact (yields_pure.mp hrest).1.symm
  | some method =>
    obtain ⟨closure, m₂, -, hrest⟩ := yields_bind.mp hrest
    obtain ⟨_, m₃, -, hrest⟩ := yields_bind.mp hrest
    exact (yields_pure.mp hrest).1.symm

namespace Log

def perform (t : Log) (job : Job) : Log :=
  (outcome (LoggedRun.executeProgram job.fuel job.program) { t with machine.table := job.table }).2

def initial (limit : Option Nat) (reading : Nat → Float) : Log :=
  ⟨.initial limit reading, []⟩

variable {given : String → Prop} {t : Log}

namespace Sound

lemma initial (given : String → Prop) (limit : Option Nat) (reading : Nat → Float) :
    (Log.initial limit reading).Sound given where
  fits := by
    refine ⟨?_, ?_, ?_, ?_, ?_⟩
    · simp [Log.initial, Machine.initial, Frames.initial, FrameRef.globals]
    · simp [Log.initial]
    · simp [Log.initial]
    · simp [Log.initial, Machine.initial]
    · simp [Log.initial, Machine.initial]
  begun before m behind heq := by simp [Log.initial] at heq
  ended before closure self? result behind heq := by simp [Log.initial] at heq

lemma setTable (ht : t.Sound given) (table : BindingTable) :
    Sound given { t with machine.table := table } :=
  ht.setMachine (ht.fits.of_eq rfl rfl rfl rfl)

lemma perform (ht : t.Sound given) {job : Job} (hf : Stmt.FormedAll given job.program) :
    (t.perform job).Sound given ∧ (t.perform job).machine = t.machine.perform job := by
  have hkeeps := LoggedRun.executeProgram_keeps (ht.setTable job.table) job.fuel hf
  exact ⟨hkeeps.sound, (congrArg Prod.snd hkeeps.erases).symm⟩

lemma foldl_perform (ht : t.Sound given) {jobs : List Job}
    (hf : ∀ job ∈ jobs, Stmt.FormedAll given job.program) :
    (jobs.foldl Log.perform t).Sound given ∧
      (jobs.foldl Log.perform t).machine = jobs.foldl Machine.perform t.machine := by
  induction jobs generalizing t with
  | nil => exact ⟨ht, rfl⟩
  | cons job rest ih =>
    obtain ⟨hjob, hrest⟩ := List.forall_mem_cons.mp hf
    obtain ⟨hsound, hmachine⟩ := ht.perform hjob
    obtain ⟨hsound', hmachine'⟩ := ih hsound hrest
    exact ⟨hsound', hmachine'.trans (by rw [hmachine]; rfl)⟩

end Sound

/-- The log as it was when something was about to be run, or as it is. -/
def Reached (t reached : Log) : Prop :=
  (∃ behind, t.entries = reached.entries ++ .begins reached.machine :: behind) ∨ reached = t

lemma Sound.reached {reached : Log} (h : t.Sound given) (hr : t.Reached reached) :
    reached.Sound given := by
  rcases hr with ⟨behind, heq⟩ | rfl
  · exact h.of_begins heq
  · exact h

/-- The frame binds the one name and no other, to the value. -/
def BindsExactly (m : Machine) (frame : FrameRef) (name : String) (value : Value) : Prop :=
  (m.frames.get? frame).map Frame.bindings = some ((∅ : Bindings Value).insert name value)

lemma Special.not_plain {name : String} {value : Value} (h : Special name value) :
    ¬ Scope.IsPlain name := by
  cases h with
  | this self => exact fun hplain => hplain.1 rfl
  | super ref => exact fun hplain => hplain.2 rfl

lemma Fits.bindsExactly (h : t.Fits Scope.IsPlain) {frame : FrameRef} {name : String} {value : Value}
    (hm : .makes frame name value ∈ t.entries) : BindsExactly t.machine frame name value := by
  obtain ⟨found, enclosing, hget, hfound⟩ := (h.made frame name value hm).2
  obtain rfl := hfound (h.special frame name value hm).not_plain
  rw [BindsExactly, hget, Option.map_some]

/-- Programs that are made of source texts are run one after another, with any binding tables. Whenever
something is run, each frame that was made for an instance or a superclass binds that and nothing else. So the
call of an initializer, in whatever way it is reached and however its body ends, finds the instance that the
initializer was bound to, and yields it; and calling a class yields the instance that is made for the call. -/
theorem special_frames_last (limit : Option Nat) (reading : Nat → Float) (jobs : List Job)
    (hscanned : ∀ job ∈ jobs, job.IsScanned) :
    let t := jobs.foldl Log.perform (Log.initial limit reading)
    t.machine = jobs.foldl Machine.perform (.initial limit reading) ∧
      (∀ reached, t.Reached reached → ∀ frame name value, .makes frame name value ∈ reached.entries →
        Special name value ∧ BindsExactly reached.machine frame name value) ∧
      (∀ before closure self? result behind,
        t.entries = before ++ .ends closure self? result :: behind → closure.isInitializer = true →
          ∃ self, .makes closure.scope Scope.thisName (.instanceAt self) ∈ before ∧
            self? = some (.instanceAt self) ∧ result = .instanceAt self) ∧
      ∀ execute ref initializer arguments m value m',
        outcome (Run.call execute (.construct ref initializer) arguments) m = (.ok value, m') →
          value = .instanceAt ⟨m.instances.size⟩ := by
  intro t
  have hformed : ∀ job ∈ jobs, Stmt.FormedAll Scope.IsPlain job.program := by
    intro job hjob
    obtain ⟨source, tokens, n, nextId, hscan, hparse⟩ := hscanned job hjob
    exact Program.formed_of_parse hparse fun t ht => (Token.wellSpelt_of_scan hscan ht).identifier
  obtain ⟨hsound, hmachine⟩ := (Sound.initial Scope.IsPlain limit reading).foldl_perform hformed
  refine ⟨hmachine, ?_, ?_, ?_⟩
  · intro reached hreached frame name value hm
    have hfits := (hsound.reached hreached).fits
    exact ⟨hfits.special frame name value hm, hfits.bindsExactly hm⟩
  · intro before closure self? result behind heq hi
    obtain ⟨self, found, hmade, rfl, rfl, hfound⟩ := hsound.ended before closure _ _ behind heq hi
    obtain rfl := hfound fun hplain => hplain.1 rfl
    exact ⟨self, hmade, rfl, rfl⟩
  · intro execute ref initializer arguments m value m' hrun
    exact Run.eq_of_construct hrun

/-- A class with an initializer, which is called again on the instance. -/
def initializing : Job where
  fuel := 9
  table := ∅
  program := [.classDecl ⟨⟨"A", 1⟩, none, [⟨⟨"init", 1⟩, [], []⟩]⟩,
    .expression (.call (.get (.call (.read ⟨0, ⟨"A", 1⟩⟩) [] 1) ⟨"init", 1⟩) [] 1)]

lemma initializing_isScanned : initializing.IsScanned := by
  have hscan : ∃ tokens, Token.scan "class A \x7b init() \x7b\x7d \x7d A().init();" = .ok tokens ∧
      Program.parse tokens 0 = (.ok initializing.program, 1) := ⟨_, rfl, by cbv⟩
  obtain ⟨tokens, hscan, hparse⟩ := hscan
  exact ⟨_, tokens, 0, 1, hscan, hparse⟩

set_option maxRecDepth 8000 in
theorem special_frames_last_of_initializing :
    let t := [initializing].foldl Log.perform (Log.initial none fun _ => 0)
    t.entries.filterMap Entry.initialized? = [.instanceAt ⟨0⟩, .instanceAt ⟨0⟩] ∧
      ∀ frame name value, .makes frame name value ∈ t.entries →
        Special name value ∧ BindsExactly t.machine frame name value := by
  have hall := special_frames_last none (fun _ => 0) [initializing]
    (by simpa using initializing_isScanned)
  exact ⟨by cbv, hall.2.1 _ (.inr rfl)⟩

end Log

end Lox
