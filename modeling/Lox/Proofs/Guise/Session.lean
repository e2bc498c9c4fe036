import Lox.Proofs.Guise.Preservation
import Lox.Proofs.Watch.Session

/-! Sessions in a guise: what a program does in a session, it does in any guise that is faithful to it
and to the programs before it. -/

namespace Lox

section Mono

variable {programs programs' : List Program}

lemma Beside.mono {one other : String} (h : Beside programs one other)
    (hsub : ∀ event, Accepted programs event → Accepted programs' event) :
    Beside programs' one other := by
  obtain ⟨decl, scope, outer, hv, hdecl⟩ := h
  exact ⟨decl, scope, outer, hsub _ hv, hdecl⟩

lemma Stems.mono {f : Frames} {ref : FrameRef} {name : String} (h : Stems programs f ref name)
    (hsub : ∀ event, Accepted programs event → Accepted programs' event) :
    Stems programs' f ref name := by
  refine h.imp_right ?_
  rintro ⟨decl, scopes, hv, hdecl⟩
  exact ⟨decl, scopes, hsub _ hv, hdecl⟩

lemma Named.mono {w : Watch} (h : Named programs w)
    (hsub : ∀ event, Accepted programs event → Accepted programs' event)
    (hd : ∀ d, Declares programs d → Declares programs' d) (table : BindingTable) :
    Named programs' { w with machine.table := table } where
  ordered := h.ordered
  stems ref name hn hb := (h.stems ref name hn hb).mono hsub
  beside ref one other hr hone hother hne hb hb' :=
    (h.beside ref one other hr hone hother hne hb hb').imp (·.mono hsub) (·.mono hsub)
  functionSites := h.functionSites
  classSites := h.classSites
  functions closure hc d hd' := hd d (h.functions closure hc d hd')
  classes type ht name method hm d hd' := hd d (h.classes type ht name method hm d hd')

end Mono

namespace Labels

variable {l : Labels}

def outcome (l : Labels) : Outcome → Outcome
  | .failure (.runtime e) => .failure (.runtime (l.error e))
  | other => other

lemma outcome_ofRun (result : Except Halt Unit) :
    Outcome.ofRun (counterpart id l.halt result) = l.outcome (.ofRun result) := by
  rcases result with ⟨_ | _⟩ | _ <;> rfl

lemma cause_eq (h : l.name = id) (cause : RuntimeError.Cause) : l.cause cause = cause := by
  cases cause <;> simp [cause, h]

lemma error_same (e : RuntimeError) : Labels.same.error e = e := by
  rw [error, cause_eq rfl]
  rfl

lemma counterpart_same {α : Type} (result : Except Halt α) :
    counterpart id Labels.same.halt result = result := by
  rcases result with ⟨e | _⟩ | _
  · exact congrArg (fun e => Except.error (Halt.error e)) (error_same e)
  · rfl
  · rfl

lemma outcome_same (o : Outcome) : Labels.same.outcome o = o := by
  rcases o with _ | ⟨_ | _ | _ | e⟩ | _
  case failure.runtime => exact congrArg (fun e => Outcome.failure (.runtime e)) (error_same e)
  all_goals rfl

end Labels

lemma Closure.relabel_same (closure : Closure) : closure.relabel .same = closure := by
  simp [relabel, FunctionDecl.relabel_same]

lemma Class.relabel_same (type : Class) : type.relabel .same = type := by
  have hclosure : Closure.relabel .same = id := funext Closure.relabel_same
  simp [relabel, mapMethods, hclosure, Bindings.map]

lemma Machine.relabel_same (m : Machine) : m.relabel .same = m := by
  have hclosure : Closure.relabel .same = id := funext Closure.relabel_same
  have hclass : Class.relabel .same = id := funext Class.relabel_same
  simp only [relabel, hclosure, hclass, Array.map_id]
  rw [show Labels.same.name = id from rfl, Frames.rename_id]

lemma Machine.relabel_initial (l : Labels) (limit : Option Nat) (reading : Nat → Float) :
    (initial limit reading).relabel l = initial limit reading := by
  have hframes : (Frames.initial.define .globals clockName (.native .clock)).rename l.name =
      Frames.initial.define .globals clockName (.native .clock) := rfl
  simp [relabel, initial, hframes]

namespace Guise

variable {g : Guise} {programs : List Program}

/-- If names are kept and frames are found by the table, all it takes is entries that are the same. -/
lemma finds_of_entry (hname : g.labels.name = id) (hfind : g.find = Machine.binder?) {m : Machine}
    {target : Reference} (hentry : g.table[target.id]? = m.table[target.id]?) :
    g.Finds m target := by
  refine ⟨?_, fun _ _ => ⟨fun _ => by rw [hname, id], fun _ _ _ hsame => by simpa [hname] using hsame⟩⟩
  have hframes : (g.machine m).frames = m.frames := by
    simp only [machine, Machine.relabel, hname, Frames.rename_id]
  have htable : (g.machine m).table[(g.labels.reference target).id]? = m.table[target.id]? := hentry
  have htext : (g.labels.reference target).name.text = target.name.text := by
    simp only [Labels.reference, Labels.named, hname, id]
  rw [hfind]
  simp only [Machine.binder?, htable, hframes, htext]
  rfl

lemma faithful_of_lines (hname : g.labels.name = id) (hfind : g.find = Machine.binder?)
    (hentries : ∀ v, Accepted programs (.visit v) → v.Agrees g.table) : g.Faithful programs where
  plain := by
    constructor <;> simp [hname]
  titles d _ _ := by rw [hname, id]
  top name _ := by rw [hname, id]
  apart name scope outer _ := Bindings.apart_of_injective (by simp [hname, Function.injective_id])
  entries := hentries
  reads w site node target hs hr hn hclean hagrees hnode := by
    refine finds_of_entry hname hfind ?_
    have huse : node.use? = some (target.id, target.name.text) := by
      rcases hnode with rfl | ⟨rfl, hthis⟩
      · rfl
      · rw [hthis]
        rfl
    exact (hentries _ hagrees.visited _ _ huse).trans (hr.entries _ hagrees.visited _ _ huse).symm
  assigns w site target value hr hv _ :=
    finds_of_entry hname hfind
      ((hentries _ hv _ _ rfl).trans (hr.ready.ruled.entries _ hv _ _ rfl).symm)

end Guise

namespace WatchedSession

/-- What is so of a session between two programs, also of the names in it. -/
structure Knows (watched : WatchedSession) : Prop extends watched.Keeps where
  named : Named watched.programs ⟨watched.session.machine, watched.journal⟩

lemma knows_initial (limit : Option Nat) (reading : Nat → Float) :
    (initial limit reading).Knows := by
  have henclosing (ref : FrameRef) :
      (initial limit reading).session.machine.frames.enclosing? ref = none := by
    refine (Frames.enclosing?_define ..).trans ?_
    rw [Frames.enclosing?, Frames.get?]
    rcases ref with ⟨_ | i⟩ <;> rfl
  have hbinds {ref : FrameRef} {name : String}
      (hb : (initial limit reading).session.machine.frames.binds ref name = true) :
      ref = .globals ∧ name = Machine.clockName := by
    rcases (Frames.binds_define_iff _).mp hb with hb | ⟨rfl, rfl, -⟩
    · rcases ref with ⟨_ | i⟩ <;> simp [Frames.binds, Frames.lookup?, Frames.get?, Frames.initial] at hb
    · exact ⟨rfl, rfl⟩
  refine ⟨keeps_initial limit reading, ?_⟩
  refine ⟨fun ref outer ho => ?_, fun ref name _ hb => .inl (hbinds hb),
    fun ref one other hne _ _ _ hb _ => absurd (hbinds hb).1 hne, ?_, ?_, ?_, ?_⟩
  · rw [henclosing] at ho
    simp at ho
  all_goals simp [initial, Session.initial, Machine.initial]

variable {watched : WatchedSession}

lemma Knows.withNextId (h : watched.Knows) {n : Nat} (hn : watched.session.nextId ≤ n) :
    (watched.withNextId n).Knows :=
  ⟨h.toKeeps.withNextId hn, h.named⟩

section Running

variable {program : Program} {distances : List Distance} {m : Nat}

lemma Knows.mirrors (h : watched.Knows) (fuel : Nat)
    (ht : Takes watched.session.nextId (Stmt.idsAll program) m) (hp : Stmt.ProperAll program)
    (hr : Program.resolve program = .ok distances) {g : Guise}
    (hg : g.Faithful (program :: watched.programs)) :
    g.Mirrors (program :: watched.programs) ((watched.withNextId m).watchWith distances)
      (WatchedRun.executeProgram fuel .top program)
      (Program.executeBy g.find fuel (Stmt.relabelAll g.labels program)) id := by
  have hsub (event : Event) (he : Accepted watched.programs event) :
      Accepted (program :: watched.programs) event := accepted_cons.mpr (.inr he)
  have hd (d : Declaration) (hd : Declares watched.programs d) :
      Declares (program :: watched.programs) d := by
    obtain ⟨other, hother, hmem⟩ := hd
    exact ⟨other, List.mem_cons_of_mem _ hother, hmem⟩
  exact Guise.executeProgram_mirrors hg fuel (h.sound.mono hsub _) (h.ruled_cons ht hr)
    (h.named.mono hsub hd _) h.current hp (fun event he => accepted_cons.mpr (.inl he))
    fun d hd => ⟨program, List.mem_cons_self .., hd⟩

lemma Knows.runBound (h : watched.Knows) (fuel : Nat)
    (ht : Takes watched.session.nextId (Stmt.idsAll program) m) (hp : Stmt.ProperAll program)
    (hr : Program.resolve program = .ok distances) :
    ((watched.withNextId m).runBound fuel program distances).2.Knows := by
  have hruled := h.ruled_cons ht hr
  have hg : Guise.Faithful ⟨.same, watched.session.machine.table.extend distances, Machine.binder?⟩
      (program :: watched.programs) := Guise.faithful_of_lines rfl rfl hruled.entries
  exact ⟨h.toKeeps.runBound fuel ht hp hr, (h.mirrors fuel ht hp hr hg).states.2⟩

/-- What a program does in a session, it does on the machine in a faithful guise. -/
lemma Knows.executes (h : watched.Knows) (fuel : Nat)
    (ht : Takes watched.session.nextId (Stmt.idsAll program) m) (hp : Stmt.ProperAll program)
    (hr : Program.resolve program = .ok distances) {g : Guise}
    (hg : g.Faithful (program :: watched.programs)) :
    let machine :=
      { watched.session.machine with table := watched.session.machine.table.extend distances }
    let ended := outcome (Program.execute fuel program) machine
    outcome (Program.executeBy g.find fuel (Stmt.relabelAll g.labels program)) (g.machine machine) =
      (counterpart id g.labels.halt ended.1, g.machine ended.2) := by
  have hmirrors := h.mirrors fuel ht hp hr hg
  have hid (result : Except Halt Unit) : result.map id = result := by cases result <;> rfl
  have herases := WatchedRun.executeProgram_erases fuel .top program
    ((watched.withNextId m).watchWith distances)
  rw [hid] at herases
  change outcome (Program.executeBy g.find fuel (Stmt.relabelAll g.labels program))
      (g.machine ((watched.withNextId m).watchWith distances).machine) =
    (counterpart id g.labels.halt (outcome (Program.execute fuel program)
      ((watched.withNextId m).watchWith distances).machine).1, g.machine (outcome
        (Program.execute fuel program) ((watched.withNextId m).watchWith distances).machine).2)
  rw [herases]
  exact Prod.ext hmirrors.result hmirrors.states.1

/-- Nothing but a new program changes the table. -/
lemma Keeps.table_executes (h : watched.Keeps) (fuel : Nat)
    (ht : Takes watched.session.nextId (Stmt.idsAll program) m) (hp : Stmt.ProperAll program)
    (hr : Program.resolve program = .ok distances) :
    (outcome (Program.execute fuel program)
      { watched.session.machine with
        table := watched.session.machine.table.extend distances }).2.table =
      watched.session.machine.table.extend distances := by
  have hsub (event : Event) (he : Accepted watched.programs event) :
      Accepted (program :: watched.programs) event := accepted_cons.mpr (.inr he)
  have hsound : Sound (program :: watched.programs)
      ((watched.withNextId m).watchWith distances) := h.sound.mono hsub _
  obtain ⟨hadvances, -⟩ := WatchedRun.executeProgram_safe fuel hsound (h.ruled_cons ht hr) h.current hp
    fun event he => accepted_cons.mpr (.inl he)
  have herases := WatchedRun.executeProgram_erases fuel .top program
    ((watched.withNextId m).watchWith distances)
  exact (congrArg (·.2.table) herases).trans hadvances.table

/-- If a session is told with other labels, a program with them does in it what the program does in
the session. -/
lemma Knows.runBound_relabel (h : watched.Knows) (fuel : Nat)
    (ht : Takes watched.session.nextId (Stmt.idsAll program) m) (hp : Stmt.ProperAll program)
    (hr : Program.resolve program = .ok distances) {l : Labels}
    (hg : Guise.Faithful ⟨l, watched.session.machine.table.extend distances, Machine.binder?⟩
      (program :: watched.programs)) :
    let (result, session) := Session.runBound fuel { watched.session with nextId := m } program distances
    Session.runBound fuel { nextId := m, machine := watched.session.machine.relabel l }
        (Stmt.relabelAll l program) distances =
      (l.outcome result, { session with machine := session.machine.relabel l }) := by
  have hexecutes := h.executes fuel ht hp hr hg
  have htable := h.toKeeps.table_executes fuel ht hp hr
  rw [Program.executeBy_binder?] at hexecutes
  have hmachine (machine : Machine)
      (h : machine.table = watched.session.machine.table.extend distances) :
      Guise.machine ⟨l, watched.session.machine.table.extend distances, Machine.binder?⟩ machine =
        machine.relabel l := by
    rw [← h]
    rfl
  dsimp only at hexecutes
  rw [hmachine _ rfl, hmachine _ htable] at hexecutes
  rw [Session.runBound_eq, Session.runBound_eq]
  simp only [Machine.relabel] at hexecutes ⊢
  rw [hexecutes]
  exact Prod.ext (Labels.outcome_ofRun _) rfl

end Running

end WatchedSession

end Lox
