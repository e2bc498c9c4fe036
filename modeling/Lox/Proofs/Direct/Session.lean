import Lox.Proofs.Direct.Parsing
import Lox.Proofs.Direct.Preservation
import Lox.Proofs.Watch.Session

/-! Sessions whose programs are run with their loops as they are written. They cannot be told from those
in which every loop is put in terms of the other statements and names are found by counted scopes. -/

namespace Lox.Direct

structure Session where
  nextId : Nat
  state : State

namespace Session

def initial (limit : Option Nat) (reading : Nat → Float) : Session :=
  ⟨0, .initial limit reading⟩

/-- Runs a source text. Whether it is accepted depends on what its loops come to, but where its names are
bound does not. -/
def run (fuel : Nat) (session : Session) (source : String) : Outcome × Session :=
  match Token.scan source with
  | .error errors => (.failure (.scan errors), session)
  | .ok tokens =>
    let (parsed, nextId) := Program.parse tokens session.nextId
    match parsed with
    | .error errors => (.failure (.parse errors), { session with nextId })
    | .ok program =>
      match Lox.Program.resolve (Stmt.desugarAll program) with
      | .error violations => (.failure (.resolve violations), { session with nextId })
      | .ok _ =>
        let (result, state) := outcome (Program.execute fuel program) session.state
        (.ofRun result, ⟨nextId, state⟩)

def runAll (fuel : Nat) (session : Session) : List String → List Outcome × Session
  | [] => ([], session)
  | source :: rest =>
    let (outcome, session) := session.run fuel source
    let (outcomes, session) := session.runAll fuel rest
    (outcome :: outcomes, session)

end Session

/-- The function is made from the same declaration, and is closed over the home of its innermost frame. -/
structure Closure.Reads (home : List FrameRef) (own : Closure) (closure : Lox.Closure) : Prop where
  decl : closure.decl = own.decl.desugar
  isInitializer : closure.isInitializer = own.isInitializer
  scope : home[own.env.innermost.index]? = some closure.scope

structure Class.Reads (home : List FrameRef) (own : Class) (type : Lox.Class) : Prop where
  name : type.name = own.name
  superclass : type.superclass = own.superclass
  methods : ∀ name, Option.Rel (fun method own => Closure.Reads home own method)
    (type.methods.get? name) (own.methods.get? name)

/-- The two sessions have the same instances, output and clock, and the same functions and classes up to
what loops come to. The frames of the direct one are those of the other at their homes; in those that it
has no counterpart of, nothing is bound. -/
structure Session.Represents (home : List FrameRef) (direct : Session) (session : Lox.Session) :
    Prop where
  nextId : direct.nextId = session.nextId
  frames : Mirrors home session.machine.frames direct.state.frames
  functions : ∀ i : Nat, Option.Rel (fun closure own => Closure.Reads home own closure)
    session.machine.functions[i]? direct.state.functions[i]?
  classes : ∀ i : Nat, Option.Rel (fun type own => Class.Reads home own type)
    session.machine.classes[i]? direct.state.classes[i]?
  instances : direct.state.instances = session.machine.instances
  output : direct.state.output = session.machine.output
  clock : direct.state.clock = session.machine.clock

namespace Tied

variable {programs : List Lox.Program} {home : List FrameRef} {w : Watch} {s : State}

lemma reads_function (h : Tied home w s) (hs : Sound programs w) (i : Nat) :
    Option.Rel (fun closure own => Closure.Reads home own closure) w.machine.functions[i]?
      s.functions[i]? := by
  rcases h.function_cases hs i with ⟨hc, ho⟩ | ⟨closure, own, site, hc, ho, hsite, hstands⟩
  · rw [hc, ho]
    exact .none
  · rw [hc, ho]
    refine .some ⟨hstands.decl, hstands.isInitializer, ?_⟩
    rw [(hs.functions i closure site hc hsite).scope]
    exact hstands.follows.innermost h.frames.globals

lemma reads_class (h : Tied home w s) (hs : Sound programs w) (i : Nat) :
    Option.Rel (fun type own => Class.Reads home own type) w.machine.classes[i]? s.classes[i]? := by
  rcases h.class_cases hs i with ⟨ht, ho⟩ | ⟨type, own, site, ht, ho, hsite, hstands⟩
  · rw [ht, ho]
    exact .none
  · have hfits := hs.classes i type site ht hsite
    rw [ht, ho]
    refine .some ⟨hstands.name, hstands.superclass, fun name => ?_⟩
    rcases rel_cases (hstands.methods name) with ⟨hm, ho⟩ | ⟨method, own, hm, ho, hbelongs⟩
    · rw [hm, ho]
      exact .none
    · rw [hm, ho]
      refine .some ⟨hbelongs.decl, hbelongs.isInitializer, ?_⟩
      rw [(hfits.methods name method hm).scope]
      exact hbelongs.follows.innermost h.frames.globals

end Tied

/-- What is so between two programs of a session that is watched and one that runs directly. -/
structure Kept (home : List FrameRef) (watched : WatchedSession) (direct : Session) : Prop where
  keeps : watched.Keeps
  nextId : direct.nextId = watched.session.nextId
  tied : Tied home ⟨watched.session.machine, watched.journal⟩ direct.state

namespace Kept

variable {home : List FrameRef} {watched : WatchedSession} {direct : Session}

lemma represents (h : Kept home watched direct) : direct.Represents home watched.session where
  nextId := h.nextId
  frames := h.tied.frames
  functions := h.tied.reads_function h.keeps.sound
  classes := h.tied.reads_class h.keeps.sound
  instances := h.tied.instances
  output := h.tied.output
  clock := h.tied.clock

lemma initial (limit : Option Nat) (reading : Nat → Float) :
    Kept [.globals] (.initial limit reading) (.initial limit reading) where
  keeps := WatchedSession.keeps_initial limit reading
  nextId := rfl
  tied :=
    { frames := by
        have hglobals : [FrameRef.globals][FrameRef.globals.index]? = some .globals := rfl
        exact Mirrors.initial.define hglobals Machine.clockName (.native .clock)
      sizeFunctions := rfl
      sizeClasses := rfl
      functions := by simp [WatchedSession.initial, Lox.Session.initial, Machine.initial]
      classes := by simp [WatchedSession.initial, Lox.Session.initial, Machine.initial]
      instances := rfl
      output := rfl
      clock := rfl }

lemma withNextId (h : Kept home watched direct) {n : Nat} (hn : watched.session.nextId ≤ n) :
    Kept home (watched.withNextId n) { direct with nextId := n } where
  keeps := h.keeps.withNextId hn
  nextId := rfl
  tied := h.tied

lemma runBound (h : Kept home watched direct) (fuel : Nat) {program : Program} {m : Nat}
    {distances : List Distance}
    (ht : Takes watched.session.nextId (Lox.Stmt.idsAll (Stmt.desugarAll program)) m)
    (hp : Lox.Stmt.ProperAll (Stmt.desugarAll program)) (hf : Stmt.FormedAll program)
    (hr : Lox.Program.resolve (Stmt.desugarAll program) = .ok distances) :
    ∃ home', home <+: home' ∧
      ((watched.withNextId m).runBound fuel (Stmt.desugarAll program) distances).1 =
        .ofRun (outcome (Program.execute fuel program) direct.state).1 ∧
      Kept home' ((watched.withNextId m).runBound fuel (Stmt.desugarAll program) distances).2
        ⟨m, (outcome (Program.execute fuel program) direct.state).2⟩ := by
  have hsound : Sound (Stmt.desugarAll program :: watched.programs)
      ((watched.withNextId m).watchWith distances) :=
    h.keeps.sound.mono (fun event he => WatchedSession.accepted_cons.mpr (.inr he)) _
  have htied : Tied home ((watched.withNextId m).watchWith distances) direct.state :=
    h.tied.step (List.prefix_refl _) rfl rfl rfl rfl h.tied.frames h.tied.instances h.tied.output
      h.tied.clock
  obtain ⟨hresult, home', hle, htied'⟩ := executeProgram_imitates fuel hsound
    (h.keeps.ruled_cons ht hr) h.keeps.current hp hf
    (fun event he => WatchedSession.accepted_cons.mpr (.inl he)) htied
  have hsame : ∀ result : Except Halt Unit, counterpart id id result = result := by
    rintro (_ | _) <;> rfl
  rw [hsame] at hresult
  exact ⟨home', hle, congrArg Outcome.ofRun hresult.symm, h.keeps.runBound fuel ht hp hr, rfl, htied'⟩

lemma run (h : Kept home watched direct) (fuel : Nat) (source : String) :
    ∃ home', home <+: home' ∧ (watched.run fuel source).1 = (direct.run fuel source).1 ∧
      Kept home' (watched.run fuel source).2 (direct.run fuel source).2 := by
  unfold WatchedSession.run Session.run
  cases hs : Token.scan source with
  | error errors => exact ⟨home, List.prefix_refl _, rfl, h⟩
  | ok tokens =>
    have hle : watched.session.nextId ≤ (Lox.Program.parse tokens watched.session.nextId).2 := by
      rw [Session.parse_at]
      exact Nat.le_add_left ..
    have hdesugar := Program.parse_desugar tokens watched.session.nextId
    rw [h.nextId]
    rcases hparse : Program.parse tokens watched.session.nextId with ⟨errors | program, nextId⟩ <;>
      rw [hparse] at hdesugar <;> rw [hdesugar] at hle <;> simp only [hdesugar, hparse]
    · exact ⟨home, List.prefix_refl _, rfl, h.withNextId hle⟩
    · have hderives := Lox.Parser.parse_sound hdesugar
      have hproper : Lox.Stmt.ProperAll (Stmt.desugarAll program) := hderives.proper fun t ht =>
        Token.wellSpelt_of_scan hs ((List.takeWhile_sublist _).subset ht)
      simp only [Except.map]
      cases hresolve : Lox.Program.resolve (Stmt.desugarAll program) with
      | error violations => exact ⟨home, List.prefix_refl _, rfl, h.withNextId hle⟩
      | ok distances =>
        exact h.runBound fuel hderives.takes hproper (Program.parse_formed hparse) hresolve

lemma runAll (h : Kept home watched direct) (fuel : Nat) (sources : List String) :
    ∃ home', home <+: home' ∧ (watched.runAll fuel sources).1 = (direct.runAll fuel sources).1 ∧
      Kept home' (watched.runAll fuel sources).2 (direct.runAll fuel sources).2 := by
  induction sources generalizing home watched direct with
  | nil => exact ⟨home, List.prefix_refl _, rfl, h⟩
  | cons source rest ih =>
    obtain ⟨home', hle, houtcome, hrun⟩ := h.run fuel source
    obtain ⟨home'', hle', houtcomes, hrest⟩ := ih hrun
    exact ⟨home'', hle.trans hle', congrArg₂ List.cons houtcome houtcomes, hrest⟩

end Kept

/-- Tokens are read as what their loops, as they are written, come to in terms of the other statements.
After any source texts, further ones have the same outcomes when every loop is run as it is written and
names are found in the levels around them, as when what it comes to is run with the distances of
resolution. Both leave the same instances, output and clock, and the same bindings in each frame that there
was before and in each that both have made. -/
theorem Session.runAll_represents (fuel : Nat) (limit : Option Nat) (reading : Nat → Float)
    (before sources : List String) :
    (∀ tokens n, Lox.Program.parse tokens n =
      ((Program.parse tokens n).1.map Stmt.desugarAll, (Program.parse tokens n).2)) ∧
    ∃ home home',
      ((initial limit reading).runAll fuel before).2.Represents home
        ((Lox.Session.initial limit reading).runAll fuel before).2 ∧
      home <+: home' ∧
      (((initial limit reading).runAll fuel before).2.runAll fuel sources).1 =
        (((Lox.Session.initial limit reading).runAll fuel before).2.runAll fuel sources).1 ∧
      (((initial limit reading).runAll fuel before).2.runAll fuel sources).2.Represents home'
        (((Lox.Session.initial limit reading).runAll fuel before).2.runAll fuel sources).2 := by
  refine ⟨Program.parse_desugar, ?_⟩
  obtain ⟨home, -, -, hbefore⟩ := (Kept.initial limit reading).runAll fuel before
  obtain ⟨home', hle, houtcomes, hafter⟩ := hbefore.runAll fuel sources
  have herase := WatchedSession.erase_runAll fuel (.initial limit reading) before
  have hsession : ((WatchedSession.initial limit reading).runAll fuel before).2.session =
      ((Lox.Session.initial limit reading).runAll fuel before).2 := congrArg Prod.snd herase
  have herase' := WatchedSession.erase_runAll fuel
    ((WatchedSession.initial limit reading).runAll fuel before).2 sources
  rw [hsession] at herase'
  refine ⟨home, home', ?_, hle, ?_, ?_⟩
  · rw [← hsession]
    exact hbefore.represents
  · rw [← herase']
    exact houtcomes.symm
  · rw [← herase']
    exact hafter.represents

-- The function that the body makes sees what the increment assigns.
set_option maxRecDepth 4000 in
example :
    ((Session.initial none fun _ => 0).run 12
      "var f;for(var b=true;b;b=false)\x7bfun g()\x7bprint b;\x7df=g;\x7df();").2.state.output.written =
      "false\n".toUTF8 := by
  cbv

end Lox.Direct
