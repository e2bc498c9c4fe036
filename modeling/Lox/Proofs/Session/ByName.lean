import Lox.Proofs.Guise.Session
import Lox.Proofs.Machine.Outward
import Lox.Proofs.Session.Source
import Mathlib.Data.List.Pairwise

/-! Looking names up by distance does what looking them up by name does, in a program where no name is
declared twice and none stands for a local and a global variable. -/

namespace Lox

/-- Each name stands for one variable: none is declared twice, nor under the name of the clock, and one
that is used without an entry in the table is not that of a local variable. -/
structure Program.Unshadowed (program : Program) (table : BindingTable) : Prop where
  once : ((Program.declarations program).map Declaration.name).Nodup
  clock : ∀ d ∈ Program.declarations program, d.name ≠ Machine.clockName
  global : ∀ use ∈ Program.uses program, table[use.1]? = none →
    ∀ d ∈ Program.declarations program, d.isLocal = true → d.name ≠ use.2

namespace Program

variable {program : Program}

lemma scopes_unique (hnodup : ((Program.declarations program).map Declaration.name).Nodup)
    {one other : Name} {scopes scopes' : List Scope}
    (hone : .declare one scopes ∈ Program.events program)
    (hother : .declare other scopes' ∈ Program.events program) (hname : one.text = other.text) :
    scopes = scopes' := by
  have hnames : (Program.declarations program).map Declaration.name =
      (Program.events program).filterMap fun event => event.declared?.map Prod.fst := by
    have hplaces := congrArg (List.map Prod.fst) (Program.declared_events program)
    rw [Event.declared, List.map_filterMap, List.map_map] at hplaces
    exact hplaces.symm
  rw [hnames, List.Nodup, List.pairwise_filterMap] at hnodup
  by_contra hne
  have hsymm : Std.Symm fun e e' : Event => ∀ b ∈ e.declared?.map Prod.fst,
      ∀ b' ∈ e'.declared?.map Prod.fst, b ≠ b' := ⟨fun _ _ h b hb b' hb' => (h b' hb' b hb).symm⟩
  refine List.Pairwise.forall hnodup hone hother (fun h => hne ?_) one.text rfl other.text rfl hname
  exact (Event.declare.inj h).2

end Program

namespace Guise

variable {program : Program} {table : BindingTable} {w : Watch} {site : Site}

def byName (table : BindingTable) : Guise :=
  ⟨.same, table, Finder.byName⟩

/-- Nearer than a frame that binds a name no other frame binds it. -/
lemma depth_unique (hu : program.Unshadowed table) (hs : Sound [program] w)
    (hn : Named [program] w) {name : String} (hp : Scope.IsPlain name) {current one other : FrameRef}
    {distance distance' : Nat} (hone : w.machine.frames.ancestor? current distance = some one)
    (hother : w.machine.frames.ancestor? current distance' = some other)
    (hb : w.machine.frames.binds one name = true) (hb' : w.machine.frames.binds other name = true) :
    distance = distance' := by
  have hnot {decl : Name} {scopes : List Scope} (hv : Accepted [program] (.declare decl scopes)) :
      decl.text ≠ Machine.clockName := by
    obtain ⟨_, hmem, hv⟩ := hv
    obtain rfl := List.mem_singleton.mp hmem
    obtain ⟨d, hd, hname, -⟩ := Program.mem_declarations hv
    exact hname ▸ hu.clock d hd
  rcases hn.stems one name hp hb with ⟨rfl, hclock⟩ | ⟨decl, scopes, hv, hdecl, hglobal⟩ <;>
    rcases hn.stems other name hp hb' with ⟨rfl, hclock'⟩ | ⟨decl', scopes', hv', hdecl', hglobal'⟩
  · exact Frames.distance_globals_unique hs.root hone hother
  · exact absurd (hdecl'.trans hclock) (hnot hv')
  · exact absurd (hdecl.trans hclock') (hnot hv)
  · obtain ⟨_, hmem, hv⟩ := hv
    obtain rfl := List.mem_singleton.mp hmem
    obtain ⟨_, hmem', hv'⟩ := hv'
    obtain rfl := List.mem_singleton.mp hmem'
    obtain rfl := Program.scopes_unique hu.once hv hv' (hdecl.trans hdecl'.symm)
    have hfar : w.machine.frames.ancestor? current (distance + scopes.length) = some .globals := by
      rw [Frames.ancestor?_add, hone, Option.bind_some, hglobal]
    have hfar' : w.machine.frames.ancestor? current (distance' + scopes.length) = some .globals := by
      rw [Frames.ancestor?_add, hother, Option.bind_some, hglobal']
    exact Nat.add_right_cancel (Frames.distance_globals_unique hs.root hfar hfar')

section Finding

variable {target : Reference} {node : Expr}

lemma outward_lt (hdepth : site.frames.length = site.scopes.length)
    (houtward : ∀ distance, w.machine.frames.ancestor? w.machine.current distance =
      (site.frames ++ [.globals])[distance]?) {distance : Nat} {frame : FrameRef}
    (hlt : distance < site.scopes.length)
    (hframe : w.machine.frames.ancestor? w.machine.current distance = some frame) :
    (site.scopes[distance], frame) ∈ site.scopes.zip site.frames := by
  rw [houtward, List.getElem?_append_left (by rwa [hdepth])] at hframe
  refine List.mem_iff_getElem?.mpr ⟨distance, ?_⟩
  rw [List.getElem?_zip_eq_some]
  exact ⟨List.getElem?_eq_getElem hlt, hframe⟩

/-- A name that is found in a scope and bound in the frame for it is bound in no nearer frame. -/
lemma byName_bound (hu : program.Unshadowed table) (hs : Sound [program] w) (hn : Named [program] w)
    (hclean : w.machine.frames.SpecialInPlace site.scopes site.frames)
    (hdepth : site.frames.length = site.scopes.length)
    (houtward : ∀ distance, w.machine.frames.ancestor? w.machine.current distance =
      (site.frames ++ [.globals])[distance]?) {name : String} {distance : Nat} {frame : FrameRef}
    (hfound : site.scopes.findIdx? (·.contains name) = some distance)
    (hframe : w.machine.frames.ancestor? w.machine.current distance = some frame)
    (hb : w.machine.frames.binds frame name = true) :
    w.machine.frames.binder? w.machine.current name = some frame := by
  refine Frames.binder?_eq_some hn.ordered hframe hb fun nearer hlt other hother => ?_
  by_contra hbinds
  rw [Bool.not_eq_false] at hbinds
  obtain ⟨hscope, -, hnot⟩ := List.findIdx?_eq_some_iff_getElem.mp hfound
  by_cases hp : Scope.IsPlain name
  · exact absurd (depth_unique hu hs hn hp hother hframe hbinds hb) (Nat.ne_of_lt hlt)
  · have hmem := outward_lt hdepth houtward (Nat.lt_trans hlt hscope) hother
    exact absurd ((hclean _ hmem).2 name hp hbinds) (by simpa using hnot nearer hlt)

/-- A name that is found in no scope is bound in the global frame or not at all. -/
lemma byName_global (hu : program.Unshadowed table) (hs : Sound [program] w) (hn : Named [program] w)
    (hclean : w.machine.frames.SpecialInPlace site.scopes site.frames)
    (hdepth : site.frames.length = site.scopes.length)
    (houtward : ∀ distance, w.machine.frames.ancestor? w.machine.current distance =
      (site.frames ++ [.globals])[distance]?) {i : Nat} {name : String}
    (huse : (i, name) ∈ Program.uses program) (hentry : table[i]? = none)
    (hfound : site.scopes.findIdx? (·.contains name) = none) :
    w.machine.frames.binder? w.machine.current name = w.machine.frames.binder? .globals name := by
  have htop : w.machine.frames.ancestor? w.machine.current site.scopes.length = some .globals := by
    rw [houtward, ← hdepth]
    simp
  have hnot (distance : Nat) (hlt : distance < site.scopes.length) (other : FrameRef)
      (hother : w.machine.frames.ancestor? w.machine.current distance = some other) :
      w.machine.frames.binds other name = false := by
    by_contra hbinds
    rw [Bool.not_eq_false] at hbinds
    by_cases hp : Scope.IsPlain name
    · rcases hn.stems other name hp hbinds with ⟨rfl, -⟩ | ⟨decl, scopes, ⟨_, hmem, hv⟩, rfl, hglobal⟩
      · exact absurd (Frames.distance_globals_unique hs.root hother htop) (Nat.ne_of_lt hlt)
      · obtain rfl := List.mem_singleton.mp hmem
        have hfar : w.machine.frames.ancestor? w.machine.current (distance + scopes.length) =
            some .globals := by
          rw [Frames.ancestor?_add, hother, Option.bind_some, hglobal]
        have hlength := Frames.distance_globals_unique hs.root hfar htop
        obtain ⟨d, hd, hname, hlocal⟩ := Program.mem_declarations hv
        refine absurd hname (hu.global _ huse hentry d hd ?_)
        rw [hlocal]
        cases scopes with
        | nil => exact absurd hlength (by simpa using Nat.ne_of_lt hlt)
        | cons scope outer => rfl
    · have hmem := outward_lt hdepth houtward hlt hother
      have hcontains := (hclean _ hmem).2 name hp hbinds
      have hfalse := List.findIdx?_eq_none_iff.mp hfound _ (List.getElem_mem hlt)
      simp [hcontains] at hfalse
  by_cases hb : w.machine.frames.binds .globals name = true
  · have htop' : w.machine.frames.ancestor? .globals 0 = some .globals := rfl
    rw [Frames.binder?_eq_some hn.ordered htop hb hnot,
      Frames.binder?_eq_some hn.ordered htop' hb (by simp)]
  · have hglobal (distance : Nat) (other : FrameRef)
        (hother : w.machine.frames.ancestor? .globals distance = some other) :
        w.machine.frames.binds other name = false := by
      obtain rfl := Frames.eq_of_ancestor?_globals hs.root hother
      exact Bool.not_eq_true _ ▸ hb
    rw [Frames.binder?_eq_none hglobal]
    refine Frames.binder?_eq_none fun distance other hother => ?_
    by_cases hlt : distance < site.scopes.length
    · exact hnot distance hlt other hother
    · obtain ⟨more, rfl⟩ := Nat.exists_eq_add_of_le (Nat.le_of_not_lt hlt)
      rw [Frames.ancestor?_add, htop, Option.bind_some] at hother
      exact hglobal more other hother

lemma machine_byName {m : Machine} (h : m.table = table) : (byName table).machine m = m := by
  subst h
  rw [byName, machine, Machine.relabel_same]

lemma finds_byName {m : Machine}
    (h : m.frames.binder? m.current target.name.text = m.binder? target) :
    (byName table).Finds m target := by
  refine ⟨?_, fun _ _ => ⟨fun _ => rfl, fun _ _ _ hsame => hsame⟩⟩
  have hframes : ((byName table).machine m).frames = m.frames := Frames.rename_id m.frames
  rw [← h, ← hframes]
  rfl

lemma use_mem (hv : Accepted [program] (.visit ⟨node, site.context, site.scopes⟩)) {i : Nat}
    {name : String} (hu : node.use? = some (i, name)) : (i, name) ∈ Program.uses program := by
  obtain ⟨_, hmem, hv⟩ := hv
  obtain rfl := List.mem_singleton.mp hmem
  exact Program.mem_uses hv hu

/-- An assignment in the initial value of its own variable fails by name, too: the variable is bound
nowhere yet. -/
lemma byName_unbound (hu : program.Unshadowed table) (hr : Placed [program] site w) {name : String}
    (hp : Scope.IsPlain name) (hd : Scope.isBeingDefined name site.scopes = true) :
    w.machine.frames.binder? w.machine.current name = none := by
  obtain ⟨decl, scope, outer, hv, hname, hscopes⟩ := hr.pending.declares hd
  have hcurrent : w.machine.frames.binds w.machine.current name = false := by
    by_contra hb
    rw [Bool.not_eq_false] at hb
    have hdefined := hr.ready.holds.exact _ (by rw [hscopes]; rfl) name hb
    simp at hdefined
  obtain ⟨_, hmem, hv⟩ := hv
  obtain rfl := List.mem_singleton.mp hmem
  have htop := Placed.ancestor?_current hr.ready
  rw [hscopes, List.length_cons] at htop
  refine Frames.binder?_eq_none fun distance other hother => ?_
  by_contra hb
  rw [Bool.not_eq_false] at hb
  rcases hr.named.stems other name hp hb with
    ⟨-, hclock⟩ | ⟨decl', scopes', ⟨_, hmem', hv'⟩, hdecl', hglobal⟩
  · obtain ⟨d, hd', hdecl, -⟩ := Program.mem_declarations hv
    exact hu.clock d hd' (hdecl.trans (hname.trans hclock))
  · obtain rfl := List.mem_singleton.mp hmem'
    obtain rfl := Program.scopes_unique hu.once hv hv' (hname.trans hdecl'.symm)
    have hfar : w.machine.frames.ancestor? w.machine.current (distance + (outer.length + 1)) =
        some .globals := by
      rw [Frames.ancestor?_add, hother, Option.bind_some]
      exact hglobal
    have hzero := Frames.distance_globals_unique hr.ready.sound.root hfar htop
    obtain rfl : distance = 0 := by omega
    obtain rfl := Option.some.inj hother
    rw [hcurrent] at hb
    simp at hb

/-- Looking up names is faithful to a program in which each stands for one variable. -/
lemma faithful_byName (hu : program.Unshadowed table)
    (htable : ∀ v, Accepted [program] (.visit v) → v.Agrees table) :
    (byName table).Faithful [program] where
  plain := ⟨fun _ => Iff.rfl, fun _ => Iff.rfl⟩
  titles _ _ _ := rfl
  top _ _ := rfl
  apart _ _ _ _ := Bindings.apart_of_injective Function.injective_id
  entries := htable
  reads w site node target hs hr hn hclean hagrees hnode := by
    have huse : node.use? = some (target.id, target.name.text) := by
      rcases hnode with rfl | ⟨rfl, hthis⟩
      · rfl
      · rw [hthis]
        rfl
    have hassign : node.isAssign = false := by
      rcases hnode with rfl | ⟨rfl, -⟩ <;> rfl
    have hentry := hr.entries _ hagrees.visited _ _ huse
    have hentry' := htable _ hagrees.visited _ _ huse
    refine finds_byName ?_
    cases hfound : site.scopes.findIdx? (·.contains target.name.text) with
    | none =>
      simp only [Machine.binder?, hentry.trans hfound]
      exact byName_global hu hs hn hclean hagrees.depth hagrees.outward
        (use_mem hagrees.visited huse) (hentry'.trans hfound) hfound
    | some distance =>
      obtain ⟨frame, -, hframe, hb⟩ := hagrees.bound _ _ distance huse hassign (hentry.trans hfound)
      rw [byName_bound hu hs hn hclean hagrees.depth hagrees.outward hfound hframe hb]
      simp only [Machine.binder?, hentry.trans hfound]
      exact (Frames.binderAt?_eq_some_iff.mpr ⟨hframe, hb⟩).symm
  assigns w site target value hr hv hp := by
    have hentry := hr.ready.ruled.entries _ hv _ _ rfl
    have hentry' := htable _ hv _ _ rfl
    have hdepth := hr.ready.holds.laid.length_eq
    have houtward := hr.ready.holds.outward hr.ready.sound.root
    refine finds_byName ?_
    cases hfound : site.scopes.findIdx? (·.contains target.name.text) with
    | none =>
      simp only [Machine.binder?, hentry.trans hfound]
      exact byName_global hu hr.ready.sound hr.named hr.clean hdepth houtward (use_mem hv rfl)
        (hentry'.trans hfound) hfound
    | some distance =>
      obtain ⟨hlt, -⟩ := List.findIdx?_eq_some_iff_getElem.mp hfound
      rw [← hdepth] at hlt
      have hframe : w.machine.frames.ancestor? w.machine.current distance =
          some site.frames[distance] := by
        rw [houtward, List.getElem?_append_left hlt, List.getElem?_eq_getElem hlt]
      simp only [Machine.binder?, hentry.trans hfound, Frames.binderAt?, hframe]
      cases hd : Scope.isBeingDefined target.name.text site.scopes with
      | false =>
        obtain ⟨frame, hat, hb⟩ := hr.ready.holds.laid.binds_of_found hr.ready.holds.settled hd hfound
        obtain rfl : site.frames[distance] = frame := by
          rwa [List.getElem?_eq_getElem hlt, Option.some.injEq] at hat
        rw [byName_bound hu hr.ready.sound hr.named hr.clean hdepth houtward hfound hframe hb]
        rw [Option.filter_some, if_pos hb]
      | true =>
        have hnone := byName_unbound hu hr hp hd
        rw [hnone]
        refine (Option.filter_eq_none_iff.mpr fun frame hat hb => ?_).symm
        obtain rfl := Option.some.inj hat
        have hsome := Frames.binder?_isSome hr.named.ordered hframe hb
        rw [hnone] at hsome
        simp at hsome

end Finding

end Guise

namespace Session

/-- Runs a program with another way of finding the frames in which names are bound. -/
def runBoundBy (find : Finder) (fuel : Nat) (session : Session) (program : Program)
    (distances : List Distance) : Outcome × Session :=
  let machine := { session.machine with table := session.machine.table.extend distances }
  let (result, machine) := outcome (Program.executeBy find fuel program) machine
  (.ofRun result, { session with machine })

/-- Runs a source text with another way of finding the frames in which names are bound. -/
def runBy (find : Finder) (fuel : Nat) (session : Session) (source : String) : Outcome × Session :=
  match Token.scan source with
  | .error errors => (.failure (.scan errors), session)
  | .ok tokens =>
    let (parsed, nextId) := Program.parse tokens session.nextId
    let session := { session with nextId }
    match parsed with
    | .error errors => (.failure (.parse errors), session)
    | .ok program =>
      match Program.resolve program with
      | .error violations => (.failure (.resolve violations), session)
      | .ok distances => session.runBoundBy find fuel program distances

lemma runBy_of_source {find : Finder} {session : Session} {n : Nat} {source : String}
    {program : Program} {distances : List Distance} (fuel : Nat)
    (h : Program.ofSource? session.nextId source = some (program, n, distances)) :
    session.runBy find fuel source =
      runBoundBy find fuel { session with nextId := n } program distances := by
  obtain ⟨tokens, hscan, hparse, hresolve⟩ := Program.ofSource?_eq_some_iff.mp h
  simp only [runBy, hscan, hparse, hresolve]

lemma runBoundBy_binder? (fuel : Nat) (session : Session) (program : Program)
    (distances : List Distance) :
    session.runBoundBy Machine.binder? fuel program distances =
      session.runBound fuel program distances := by
  rw [runBoundBy, Program.executeBy_binder?]
  rfl

/-- To find frames by the table is to run as ever. -/
theorem runBy_binder? (fuel : Nat) (session : Session) (source : String) :
    session.runBy Machine.binder? fuel source = session.run fuel source := by
  simp only [runBy, runBoundBy_binder?]
  rfl

/-- A program in which each name stands for one variable does the same in a fresh session, whether
variables and `this` are found at their distances or by their names. -/
theorem run_by_name (fuel : Nat) (limit : Option Nat) (reading : Nat → Float) {source : String}
    {program : Program} {nextId : Nat} {distances : List Distance}
    (h : Program.ofSource? 0 source = some (program, nextId, distances))
    (hu : program.Unshadowed ((∅ : BindingTable).extend distances)) :
    (initial limit reading).runBy Finder.byName fuel source =
      (initial limit reading).run fuel source := by
  have hresolve := Program.resolve_of_source h
  have htakes := Program.takes_of_source h
  have hproper := Program.proper_of_source h
  have hknows := WatchedSession.knows_initial limit reading
  have hruled := hknows.ruled_cons htakes hresolve
  have htable := hknows.toKeeps.table_executes fuel htakes hproper hresolve
  have hexecutes := hknows.executes fuel htakes hproper hresolve
    (Guise.faithful_byName hu hruled.entries)
  have hempty : (Machine.initial limit reading).table = ∅ := rfl
  simp only [WatchedSession.initial, initial, hempty] at hexecutes htable
  have hbefore : (Guise.byName ((∅ : BindingTable).extend distances)).machine
      { Machine.initial limit reading with table := (∅ : BindingTable).extend distances } = _ :=
    Guise.machine_byName rfl
  rw [hbefore, Guise.machine_byName htable] at hexecutes
  change outcome (Program.executeBy Finder.byName fuel (Stmt.relabelAll .same program)) _ = _
    at hexecutes
  rw [Stmt.relabelAll_same] at hexecutes
  have hrun : (initial limit reading).run fuel source = _ := run_of_source fuel h
  have hrunBy : (initial limit reading).runBy Finder.byName fuel source = _ := runBy_of_source fuel h
  rw [hrun, hrunBy, runBoundBy, runBound_eq]
  simp only [initial, hempty]
  rw [hexecutes]
  exact congrArg (·, _) ((Labels.outcome_ofRun _).trans (Labels.outcome_same _))

/-- A closure finds a parameter. -/
theorem run_by_name_of_closure :
    (initial none fun _ => 0).runBy Finder.byName 9
        "fun f(a) \x7b fun g() \x7b print a; \x7d g(); \x7d f(true);" =
      (initial none fun _ => 0).run 9
        "fun f(a) \x7b fun g() \x7b print a; \x7d g(); \x7d f(true);" := by
  have hsource : Program.ofSource? 0
      "fun f(a) \x7b fun g() \x7b print a; \x7d g(); \x7d f(true);" =
      some ([.functionDecl ⟨⟨"f", 1⟩, [⟨"a", 1⟩],
          [.functionDecl ⟨⟨"g", 1⟩, [], [.print 1 (.read ⟨0, ⟨"a", 1⟩⟩)]⟩,
            .expression (.call (.read ⟨1, ⟨"g", 1⟩⟩) [] 1)]⟩,
          .expression (.call (.read ⟨2, ⟨"f", 1⟩⟩) [.literal (.boolean true)] 1)],
        3, [(0, 1), (1, 0)]) := by cbv
  exact run_by_name 9 none (fun _ => 0) hsource ⟨by decide, by decide, by decide⟩

end Session

end Lox
