import Lox.Proofs.Grammar.Lines
import Lox.Proofs.Guise.Session
import Lox.Proofs.Session.Source

/-! Sessions whose code is on other lines. Whatever session is reached, the same one is reached with
the lines told otherwise, as long as they are told apart. -/

namespace Lox

variable {f g : Nat → Nat}

lemma Machine.relabel_lines (f : Nat → Nat) (m : Machine) :
    m.relabel (.lines f) = { m with
      functions := m.functions.map (Closure.relabel (.lines f))
      classes := m.classes.map (Class.relabel (.lines f)) } := by
  rw [relabel, Labels.lines, Frames.rename_id]

lemma Closure.relabel_relabel (l l' : Labels) (closure : Closure) :
    (closure.relabel l).relabel l' = closure.relabel (l.andThen l') := by
  simp only [relabel, FunctionDecl.relabel_relabel]

lemma Class.relabel_relabel (l l' : Labels) (type : Class) :
    (type.relabel l).relabel l' = type.relabel (l.andThen l') := by
  have hclosure : Closure.relabel l' ∘ Closure.relabel l = Closure.relabel (l.andThen l') :=
    funext (Closure.relabel_relabel l l')
  simp [relabel, mapMethods, Bindings.map, ← hclosure]

lemma Machine.relabel_lines_lines (m : Machine) :
    (m.relabel (.lines f)).relabel (.lines g) = m.relabel (.lines (g ∘ f)) := by
  have hclosure : Closure.relabel (.lines g) ∘ Closure.relabel (.lines f) =
      Closure.relabel (.lines (g ∘ f)) := funext fun closure => Closure.relabel_relabel _ _ closure
  have hclass : Class.relabel (.lines g) ∘ Class.relabel (.lines f) =
      Class.relabel (.lines (g ∘ f)) := funext fun type => Class.relabel_relabel _ _ type
  simp only [Machine.relabel_lines, Array.map_map, hclosure, hclass]

lemma Stmt.relabelAll_lines (hgf : ∀ line, g (f line) = line) (body : List Stmt) :
    Stmt.relabelAll (.lines g) (Stmt.relabelAll (.lines f) body) = body := by
  have hsame : (Labels.lines f).andThen (.lines g) = .same :=
    congrArg₂ Labels.mk (funext hgf) rfl
  rw [Stmt.relabelAll_relabelAll, hsame, Stmt.relabelAll_same]

lemma Labels.scope_lines (scope : Scope) : (Labels.lines f).scope scope = scope :=
  Bindings.mapKeys_id scope

lemma Program.resolve_lines (hgf : ∀ line, g (f line) = line) {program : Program}
    {distances : List Distance} (h : Program.resolve program = .ok distances) :
    Program.resolve (Stmt.relabelAll (.lines f) program) = .ok distances := by
  have hplain : (Labels.lines g).Plain := ⟨fun _ => Iff.rfl, fun _ => Iff.rfl⟩
  refine Program.resolve_of_relabel hplain (fun _ _ _ => rfl) ?_ fun v _ i name _ => ?_
  · rwa [Stmt.relabelAll_lines hgf]
  · have hscopes : v.scopes.map (Labels.lines g).scope = v.scopes :=
      (List.map_congr_left fun scope _ => Labels.scope_lines scope).trans (List.map_id _)
    rw [hscopes]
    rfl

namespace Session

/-- The session with its code on other lines. -/
def onLines (f : Nat → Nat) (session : Session) : Session :=
  { session with machine := session.machine.relabel (.lines f) }

lemma onLines_id (session : Session) : session.onLines id = session := by
  rw [onLines, show Labels.lines id = .same from rfl, Machine.relabel_same]

lemma onLines_onLines (session : Session) : (session.onLines f).onLines g = session.onLines (g ∘ f) :=
  congrArg (Session.mk session.nextId) (Machine.relabel_lines_lines session.machine)

/-- What comes about by running source texts. -/
inductive Reached : Session → Prop
  | initial (limit : Option Nat) (reading : Nat → Float) : Reached (initial limit reading)
  | setClock {session : Session} (reading : Nat → Float) :
      Reached session → Reached (session.setClock reading)
  | run {session : Session} (fuel : Nat) (source : String) :
      Reached session → Reached (session.run fuel source).2

end Session

namespace WatchedSession

variable {watched : WatchedSession}

lemma Knows.setClock (h : watched.Knows) (reading : Nat → Float) :
    { watched with session := watched.session.setClock reading }.Knows where
  sound :=
    { nonempty := h.sound.nonempty
      root := h.sound.root
      sizeFunctions := h.sound.sizeFunctions
      sizeClasses := h.sound.sizeClasses
      functions := h.sound.functions
      classes := h.sound.classes
      moments := h.sound.moments
      assignments := h.sound.assignments }
  ruled := h.ruled
  current := h.current
  fresh := h.fresh
  taken := h.taken
  resolved := h.resolved
  named := h.named.same rfl rfl rfl

lemma Knows.runBound_onLines (h : watched.Knows) (fuel : Nat) {program : Program} {m : Nat}
    {distances : List Distance}
    (ht : Takes watched.session.nextId (Stmt.idsAll program) m) (hp : Stmt.ProperAll program)
    (hr : Program.resolve program = .ok distances) (f : Nat → Nat) :
    let ran := Session.runBound fuel { watched.session with nextId := m } program distances
    Session.runBound fuel { watched.session.onLines f with nextId := m }
        (Stmt.relabelAll (.lines f) program) distances =
      ((Labels.lines f).outcome ran.1, ran.2.onLines f) :=
  h.runBound_relabel fuel ht hp hr (Guise.faithful_of_lines rfl rfl (h.ruled_cons ht hr).entries)

end WatchedSession

namespace Session

open WatchedSession

/-- A session that is reached can be watched from its start, on any lines that are told apart. -/
lemma Reached.exists_knows {session : Session} (h : Reached session)
    (hgf : ∀ line, g (f line) = line) :
    ∃ watched : WatchedSession, watched.Knows ∧ watched.session = session.onLines f := by
  induction h generalizing f g with
  | initial limit reading =>
    refine ⟨_, knows_initial limit reading, ?_⟩
    exact congrArg (Session.mk 0) (Machine.relabel_initial ..).symm
  | setClock reading _ ih =>
    obtain ⟨watched, hknows, hsession⟩ := ih hgf
    refine ⟨_, hknows.setClock reading, ?_⟩
    rw [hsession]
    rfl
  | @run session fuel source _ ih =>
    obtain ⟨bare, hbare, hsame⟩ := ih (f := id) (g := id) fun _ => rfl
    obtain ⟨watched, hknows, hsession⟩ := ih hgf
    obtain rfl : bare.session = session := hsame.trans (onLines_id session)
    rcases run_cases fuel bare.session source with ⟨n, hle, hrun⟩ | ⟨program, n, distances, h⟩
    · refine ⟨watched.withNextId n, hknows.withNextId (by rwa [hsession]), ?_⟩
      rw [hrun, withNextId, hsession]
      rfl
    · have htakes := Program.takes_of_source h
      have hproper := Program.proper_of_source h
      have hresolve := Program.resolve_of_source h
      have hplain : (Labels.lines f).Plain := ⟨fun _ => Iff.rfl, fun _ => Iff.rfl⟩
      have htakes' : Takes watched.session.nextId
          (Stmt.idsAll (Stmt.relabelAll (.lines f) program)) n := by
        rwa [Stmt.idsAll_relabelAll, hsession]
      refine ⟨_, hknows.runBound fuel htakes' ((Stmt.properAll_relabelAll hplain program).mpr hproper)
        (Program.resolve_lines hgf hresolve), ?_⟩
      have herase := congrArg Prod.snd (erase_runBound fuel (watched.withNextId n)
        (Stmt.relabelAll (.lines f) program) distances)
      have hruns := congrArg Prod.snd (hbare.runBound_onLines fuel htakes hproper hresolve f)
      rw [withNextId, hsession] at herase
      rw [run_of_source fuel h, withNextId, hsession]
      exact herase.trans hruns

end Session

end Lox
