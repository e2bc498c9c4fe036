import Lox.Proofs.Guise.Session
import Lox.Proofs.Local.Resolution
import Lox.Proofs.Machine.Outward
import Lox.Proofs.Session.Source

/-! Scoping is lexical: a program does the same under another name for a local variable. -/

namespace Lox

namespace Guise

variable {g : Guise} {programs : List Program} {m : Machine} {target : Reference}

/-- A name without an entry is bound globally in the guise, too, if it is kept. -/
lemma finds_globally (hfind : g.find = Machine.binder?) (hroot : m.frames.enclosing? .globals = none)
    (hentry : m.table[target.id]? = none) (hentry' : g.table[target.id]? = none)
    (hname : g.labels.name target.name.text = target.name.text) : g.Finds m target := by
  have hglobals {f : Frames} (hroot : f.enclosing? .globals = none) (name : String) :
      f.binder? .globals name = if f.binds .globals name then some .globals else none := by
    change (if f.binds .globals name then _ else (f.enclosing? .globals).bind _) = _
    rw [hroot, Option.bind_none]
  have hbinds : (m.frames.rename g.labels.name).binds .globals target.name.text =
      m.frames.binds .globals target.name.text := by
    rw [Frames.binds, Frames.lookup?_rename_globals, Frames.binds]
  have hroot' : (m.frames.rename g.labels.name).enclosing? .globals = none := by
    rwa [Frames.enclosing?_rename]
  constructor
  · rw [hfind]
    simp only [Machine.binder?, machine, Machine.relabel, Labels.reference, Labels.named, hentry,
      hentry', hname, hglobals hroot, hglobals hroot', hbinds]
  · intro frame hframe
    simp only [Machine.binder?, hentry, hglobals hroot, Option.ite_none_right_eq_some,
      Option.some.injEq] at hframe
    obtain ⟨-, rfl⟩ := hframe
    exact ⟨fun _ => hname, fun hne => absurd rfl hne⟩

/-- A name with an entry is bound at its distance in the guise, too, if it is told from the other
names there. -/
lemma finds_at (hfind : g.find = Machine.binder?) {distance : Nat} {frame : FrameRef}
    (hentry : m.table[target.id]? = some distance) (hentry' : g.table[target.id]? = some distance)
    (hframe : m.frames.ancestor? m.current distance = some frame)
    (ht : Frames.Tells g.labels.name m.frames frame target.name.text) : g.Finds m target := by
  constructor
  · rw [hfind]
    simp only [Machine.binder?, machine, Machine.relabel, Labels.reference, Labels.named, hentry,
      hentry', Frames.binderAt?, Frames.ancestor?_rename, hframe, Option.filter_some,
      Frames.binds_rename ht]
  · intro other hother
    simp only [Machine.binder?, hentry, Frames.binderAt?, hframe, Option.filter_some,
      Option.ite_none_right_eq_some, Option.some.injEq] at hother
    obtain ⟨-, rfl⟩ := hother
    exact ht

section Suiting

variable {l : Labels} {table : BindingTable} {w : Watch} {site : Site}

lemma ne_globals_of_lt (hs : Sound programs w) (hdepth : site.frames.length = site.scopes.length)
    (houtward : ∀ distance, w.machine.frames.ancestor? w.machine.current distance =
      (site.frames ++ [.globals])[distance]?) {distance : Nat} {frame : FrameRef}
    (hlt : distance < site.scopes.length)
    (hframe : w.machine.frames.ancestor? w.machine.current distance = some frame) :
    frame ≠ .globals := by
  rintro rfl
  have htop : w.machine.frames.ancestor? w.machine.current site.scopes.length = some .globals := by
    rw [houtward, ← hdepth]
    simp
  exact absurd (Frames.distance_globals_unique hs.root hframe htop) (Nat.ne_of_lt hlt)

lemma tells_pending (hl : l.Suits programs) (hr : Placed programs site w) {name : String}
    (hd : Scope.isBeingDefined name site.scopes = true) :
    Frames.Tells l.name w.machine.frames w.machine.current name := by
  obtain ⟨decl, scope, outer, hv, rfl, hscopes⟩ := hr.pending.declares hd
  refine ⟨fun hglobals => ?_, fun _ other hother hsame => ?_⟩
  · rw [(Placed.current_eq_globals_iff hr.ready).mp hglobals] at hscopes
    exact absurd hscopes (List.cons_ne_nil _ _).symm
  · have hdefined := hr.ready.holds.exact _ (by rw [hscopes]; rfl) other hother
    rw [Bindings.get?_insert] at hdefined
    split at hdefined
    · assumption
    · exact hl.apart decl scope outer hv other (by simp [Bindings.contains, hdefined]) hsame

/-- Other names are faithful to programs if they suit them and each name is found alike, or else kept. -/
lemma faithful_of_alike (hl : l.Suits programs)
    (ha : ∀ event, Accepted programs event → event.Alike l)
    (hentries : ∀ v, Accepted programs (.visit v) → v.Agrees table) :
    Guise.Faithful ⟨l, table, Machine.binder?⟩ programs where
  toSuits := hl
  entries := hentries
  reads w site node target hs hr hn hclean hagrees hnode := by
    have huse : node.use? = some (target.id, target.name.text) := by
      rcases hnode with rfl | ⟨rfl, hthis⟩
      · rfl
      · rw [hthis]
        rfl
    have hassign : node.isAssign = false := by
      rcases hnode with rfl | ⟨rfl, -⟩ <;> rfl
    have hentry := hr.entries _ hagrees.visited _ _ huse
    have hentry' := hentries _ hagrees.visited _ _ huse
    have halike := (ha _ hagrees.visited).2 _ _ huse
    simp only [Moment.visit] at hentry hentry' halike
    cases hfound : site.scopes.findIdx? (·.contains target.name.text) with
    | none =>
      rw [hfound] at hentry hentry' halike
      exact finds_globally rfl hs.root hentry hentry' (halike.resolve_right (by simp))
    | some distance =>
      rw [hfound] at hentry hentry'
      obtain ⟨frame, -, hframe, hb⟩ := hagrees.bound _ _ distance huse hassign hentry
      have hlt := (List.findIdx?_eq_some_iff_getElem.mp hfound).1
      have hne := ne_globals_of_lt hs hagrees.depth hagrees.outward hlt hframe
      exact finds_at rfl hentry hentry' hframe (hl.tells_bound hn hb fun heq => absurd heq hne)
  assigns w site target value hr hv hp := by
    have hentry := hr.ready.ruled.entries _ hv _ _ rfl
    have hentry' := hentries _ hv _ _ rfl
    have halike := (ha _ hv).2 _ _ rfl
    have hdepth := hr.ready.holds.laid.length_eq
    have houtward := hr.ready.holds.outward hr.ready.sound.root
    dsimp only at hentry hentry' halike
    cases hfound : site.scopes.findIdx? (·.contains target.name.text) with
    | none =>
      rw [hfound] at hentry hentry' halike
      exact finds_globally rfl hr.ready.sound.root hentry hentry' (halike.resolve_right (by simp))
    | some distance =>
      rw [hfound] at hentry hentry'
      have hlt := (List.findIdx?_eq_some_iff_getElem.mp hfound).1
      cases hd : Scope.isBeingDefined target.name.text site.scopes with
      | false =>
        obtain ⟨frame, hat, hb⟩ := hr.ready.holds.laid.binds_of_found hr.ready.holds.settled hd hfound
        have hframe : w.machine.frames.ancestor? w.machine.current distance = some frame := by
          rw [houtward, List.getElem?_append_left (hdepth ▸ hlt), hat]
        have hne := ne_globals_of_lt hr.ready.sound hdepth houtward hlt hframe
        exact finds_at rfl hentry hentry' hframe
          (hl.tells_bound hr.named hb fun heq => absurd heq hne)
      | true =>
        obtain ⟨decl, scope, outer, -, -, hscopes⟩ := hr.pending.declares hd
        obtain rfl : 0 = distance := by
          simpa [hscopes, List.findIdx?_cons, Bindings.contains_insert] using hfound
        exact finds_at rfl hentry hentry' rfl (tells_pending hl hr hd)

end Suiting

end Guise

namespace Renaming.Of

variable {r : Renaming} {x : String} {program : Program} {distances : List Distance}

lemma accepted_one {event : Event} :
    Accepted [program.renameLocal r] event ↔ event ∈ Program.events (program.renameLocal r) := by
  simp [Accepted]

lemma undo_top (h : r.Of x program) {name : Name}
    (hv : .declare name [] ∈ Program.events (program.renameLocal r)) :
    (r.undo x).name name.text = name.text := by
  obtain ⟨d, hd, hname, hlocal⟩ := Program.mem_declarations hv
  rw [Program.declarations_renameLocal] at hd
  obtain ⟨i, hi⟩ := List.mem_iff_getElem?.mp hd
  rw [getElem?_declarations, Nat.zero_add] at hi
  obtain ⟨e, he, rfl⟩ := Option.map_eq_some_iff.mp hi
  have hnumber : i ≠ r.number := by
    rintro rfl
    obtain rfl := Option.some.inj (he.symm.trans h.chosen)
    simp [declaration] at hlocal
  rw [← hname, declaration, if_neg (fun hrenamed => hnumber hrenamed.1)]
  exact undo_other (h.undeclared e (List.mem_of_getElem? he))

variable (h : r.Of x program) (hp : Stmt.ProperAll program)
  (hr : Program.resolve program = .ok distances)

include h hp hr

lemma suits : (r.undo x).Suits [program.renameLocal r] where
  plain := (h.between hp).plain
  titles d hd hvariable := by
    obtain ⟨_, hmem, hd⟩ := hd
    obtain rfl := List.mem_singleton.mp hmem
    exact h.keepsTitles d hd hvariable
  top name hv := h.undo_top (accepted_one.mp hv)
  apart name scope outer hv := by
    have hclean := (Program.resolve_eq_ok_iff.mp hr).1
    have hevents := Program.events_relabel (h.between hp).plain (program.renameLocal r) h.keepsTitles
      (.inr (by rwa [h.undo hp hr]))
    rw [h.undo hp hr] at hevents
    rw [hevents] at hclean
    have hparts : (r.undo x).Parts [(Event.declare name (scope :: outer)).relabel (r.undo x)] :=
      .inr (by simpa using hclean _ (List.mem_map_of_mem (accepted_one.mp hv)))
    exact hparts.apart

end Renaming.Of

namespace Session

/-- What comes of a run, if `x` stands for the new name in an error. -/
lemma outcome_undo (r : Renaming) (x : String) (o : Outcome) :
    (r.undo x).outcome o = o ∨ ∃ line,
      o = .failure (.runtime ⟨.undefinedVariable r.name, line⟩) ∧
        (r.undo x).outcome o = .failure (.runtime ⟨.undefinedVariable x, line⟩) := by
  rcases o with _ | ⟨_ | _ | _ | ⟨cause, line⟩⟩ | _
  case failure.runtime =>
    cases cause with
    | undefinedVariable name =>
      by_cases hname : name = r.name
      · subst hname
        exact .inr ⟨line, rfl, by simp [Labels.outcome, Labels.error, Labels.cause, Renaming.undo]⟩
      · exact .inl (by simp [Labels.outcome, Labels.error, Labels.cause, Renaming.undo, hname])
    | _ => exact .inl rfl
  all_goals exact .inl rfl

/-- A program does the same in a fresh session under another name for a local variable or a parameter
that is not in the program. Resolution accepts it with the same distances, it prints the same, and it
comes to the same end, but that an error can be about the new name where it was about the old one. -/
theorem run_renameLocal (fuel : Nat) (limit : Option Nat) (reading : Nat → Float) {source : String}
    {program : Program} {nextId : Nat} {distances : List Distance}
    (h : Program.ofSource? 0 source = some (program, nextId, distances)) {r : Renaming} {x : String}
    (hrenaming : r.Of x program) :
    Program.resolve (program.renameLocal r) = .ok distances ∧
      let ran := (initial limit reading).run fuel source
      let renamed :=
        runBound fuel { initial limit reading with nextId } (program.renameLocal r) distances
      (ran.1 = renamed.1 ∨ ∃ line,
        ran.1 = .failure (.runtime ⟨.undefinedVariable x, line⟩) ∧
          renamed.1 = .failure (.runtime ⟨.undefinedVariable r.name, line⟩)) ∧
      ran.2.written = renamed.2.written ∧
      ran.2 = { renamed.2 with machine := renamed.2.machine.relabel (r.undo x) } := by
  have hresolve := Program.resolve_of_source h
  have hproper := Program.proper_of_source h
  have hundo := hrenaming.undo hproper hresolve
  have hplain := (hrenaming.between hproper).plain
  have hresolve' := hrenaming.resolve hproper hresolve
  refine ⟨hresolve', ?_⟩
  have htakes' : Takes 0 (Stmt.idsAll (program.renameLocal r)) nextId := by
    rw [← Stmt.idsAll_relabelAll (l := r.undo x), hundo]
    exact Program.takes_of_source h
  have hproper' : Stmt.ProperAll (program.renameLocal r) := by
    rwa [← Stmt.properAll_relabelAll hplain, hundo]
  have hknows := WatchedSession.knows_initial limit reading
  have hruled := hknows.ruled_cons htakes' hresolve'
  have hruns := hknows.runBound_relabel fuel htakes' hproper' hresolve'
    (Guise.faithful_of_alike (hrenaming.suits hproper hresolve)
      (fun event he => hrenaming.alike hproper hresolve (Renaming.Of.accepted_one.mp he))
      hruled.entries)
  simp only [WatchedSession.initial, initial, hundo, Machine.relabel_initial] at hruns
  have hrun : (initial limit reading).run fuel source = _ := run_of_source fuel h
  rw [hrun]
  simp only [initial]
  rw [hruns]
  refine ⟨?_, rfl, rfl⟩
  rcases outcome_undo r x _ with hsame | ⟨line, hnew, hold⟩
  · exact .inl hsame
  · exact .inr ⟨line, hold, hnew⟩

/-- A closure finds its variable under the new name. -/
theorem run_renameLocal_of_closure :
    let source := "\x7b var a; fun f() \x7b print a; \x7d f(); \x7d"
    let renamed : Program :=
      [.block [.varDecl ⟨"b", 1⟩ none,
        .functionDecl ⟨⟨"f", 1⟩, [], [.print 1 (.read ⟨0, ⟨"b", 1⟩⟩)]⟩,
        .expression (.call (.read ⟨1, ⟨"f", 1⟩⟩) [] 1)]]
    Program.resolve renamed = .ok [(0, 1), (1, 0)] ∧
      ((initial none fun _ => 0).run 9 source).2.written =
        (runBound 9 { initial none fun _ => 0 with nextId := 2 } renamed
          [(0, 1), (1, 0)]).2.written := by
  have hsource : Program.ofSource? 0 "\x7b var a; fun f() \x7b print a; \x7d f(); \x7d" =
      some ([.block [.varDecl ⟨"a", 1⟩ none,
        .functionDecl ⟨⟨"f", 1⟩, [], [.print 1 (.read ⟨0, ⟨"a", 1⟩⟩)]⟩,
        .expression (.call (.read ⟨1, ⟨"f", 1⟩⟩) [] 1)]], 2, [(0, 1), (1, 0)]) := by cbv
  have hruns := run_renameLocal 9 none (fun _ => 0) hsource (r := ⟨0, "b"⟩) (x := "a")
    ⟨by decide, ⟨by decide, by decide⟩, by decide, by decide⟩
  exact ⟨hruns.1, hruns.2.2.1⟩

end Session

end Lox
