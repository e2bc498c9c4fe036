import Lox.Proofs.Guise.Lines

/-! Two source texts, one run after the other, do what they do as one text with a newline between. -/

namespace Lox

variable {program later : Program} {distances distances' : List Distance}

lemma Stmt.eventsAll_append (context : Context) (program later : Program) :
    Stmt.eventsAll context [] (program ++ later) =
      Stmt.eventsAll context [] program ++ Stmt.eventsAll context [] later := by
  induction program with
  | nil => rfl
  | cons stated rest ih =>
    rw [List.cons_append, Stmt.eventsAll, Stmt.eventsAll, Stmt.scopes_after_top, ih, List.append_assoc]

lemma Program.resolve_append (h : Program.resolve program = .ok distances)
    (h' : Program.resolve later = .ok distances') :
    Program.resolve (program ++ later) = .ok (distances ++ distances') := by
  obtain ⟨hclean, rfl⟩ := Program.resolve_eq_ok_iff.mp h
  obtain ⟨hclean', rfl⟩ := Program.resolve_eq_ok_iff.mp h'
  have hevents : Program.events (program ++ later) = Program.events program ++ Program.events later :=
    Stmt.eventsAll_append _ program later
  refine Program.resolve_eq_ok_iff.mpr ⟨fun event he => ?_, ?_⟩
  · rw [hevents] at he
    exact (List.mem_append.mp he).elim (hclean event) (hclean' event)
  · rw [hevents, Findings.ofEvents_append, Findings.distances_append]

/-- How much later a line is behind a text and a newline. -/
def Text.newlines (text : String) : Nat :=
  text.toList.count '\n' + 1

/-- A text of two parts without faults has none, and it is the program of the first part, and then
that of the second on later lines. -/
lemma Program.ofSource?_line {n k m : Nat} {a b : String}
    (ha : Program.ofSource? n a = some (program, k, distances))
    (hb : Program.ofSource? k b = some (later, m, distances')) :
    Program.ofSource? n (a ++ "\n" ++ b) =
      some (program ++ Stmt.relabelAll (.lines (· + Text.newlines a)) later, m,
        distances ++ distances') := by
  obtain ⟨tokens, hscan, hparse, hresolve⟩ := Program.ofSource?_eq_some_iff.mp ha
  obtain ⟨tokens', hscan', hparse', hresolve'⟩ := Program.ofSource?_eq_some_iff.mp hb
  have hback (line : Nat) : line + Text.newlines a - Text.newlines a = line := Nat.add_sub_cancel ..
  have hback' := Program.resolve_lines (g := (· - Text.newlines a)) hback hresolve'
  refine Program.ofSource?_eq_some_iff.mpr ⟨_, Token.scan_line hscan hscan', ?_, ?_⟩
  · have hderives := Parser.parse_sound hparse
    have hderives' : Derives k ((tokens'.takeWhile (·.kind != .eof)).map
        (Token.onLine (· + Text.newlines a))) _ m := (Parser.parse_sound hparse').onLine
    refine Parser.parse_complete ?_
    have hbefore : (tokens.dropLast ++
        tokens'.map (Token.onLine (· + (a.toList.count '\n' + 1)))).takeWhile (·.kind != .eof) =
          tokens.takeWhile (·.kind != .eof) ++
            (tokens'.takeWhile (·.kind != .eof)).map (Token.onLine (· + Text.newlines a)) := by
      rw [← Token.takeWhile_of_scan hscan, List.takeWhile_append_of_pos, List.takeWhile_map]
      · rfl
      · exact fun t ht => List.mem_takeWhile_imp (p := fun t : Token => t.kind != .eof) ht
    rw [hbefore]
    exact hderives.andThen hderives'
  · exact Program.resolve_append hresolve hback'

lemma BindingTable.extend_append (table : BindingTable) (distances distances' : List Distance) :
    table.extend (distances ++ distances') = (table.extend distances).extend distances' :=
  List.foldl_append

lemma Program.outcome_execute_append (fuel : Nat) (program later : Program) (m : Machine) :
    outcome (Program.execute fuel (program ++ later)) m =
      match outcome (Program.execute fuel program) m with
      | (.ok _, m') => outcome (Program.execute fuel later) m'
      | (.error e, m') => (.error e, m') := by
  induction program generalizing m with
  | nil => rfl
  | cons stated rest ih =>
    rw [List.cons_append, Program.execute, Program.execute, outcome_bind, outcome_bind]
    rcases outcome (Lox.execute fuel stated) m with ⟨_ | _, m'⟩
    · rfl
    · exact ih m'

/-- A program does the same if the table has entries for identities that are not taken yet. -/
lemma WatchedSession.Knows.execute_extended {watched : WatchedSession} (h : watched.Knows) (fuel : Nat)
    {k m : Nat} (ht : Takes watched.session.nextId (Stmt.idsAll program) k)
    (hp : Stmt.ProperAll program) (hr : Program.resolve program = .ok distances)
    (ht' : Takes k (Stmt.idsAll later) m) (hr' : Program.resolve later = .ok distances') :
    let table := watched.session.machine.table.extend distances
    let ended := outcome (Program.execute fuel program) { watched.session.machine with table }
    outcome (Program.execute fuel program)
        { watched.session.machine with table := table.extend distances' } =
      (ended.1, { ended.2 with table := table.extend distances' }) := by
  have hruled := h.ruled_cons ht hr
  have hentries (v : Visit) (hv : Accepted (program :: watched.programs) (.visit v)) :
      v.Agrees ((watched.session.machine.table.extend distances).extend distances') := by
    intro i name hu
    have hi : i < k := by
      rcases accepted_cons.mp hv with hv | hv
      · exact (id_of_visit ht hv hu).2
      · exact Nat.lt_of_lt_of_le (h.taken v hv i name hu) ht.1
    rw [BindingTable.getElem?_extend_of_notMem, hruled.entries v hv i name hu]
    intro distance hd
    exact absurd hi (Nat.not_lt.mpr (id_of_distance ht' hr' hd).1)
  have hg : Guise.Faithful
      ⟨.same, (watched.session.machine.table.extend distances).extend distances', Machine.binder?⟩
      (program :: watched.programs) := Guise.faithful_of_lines rfl rfl hentries
  have hexecutes := h.executes fuel ht hp hr hg
  rw [Program.executeBy_binder?, Stmt.relabelAll_same] at hexecutes
  have hmachine (table table' : BindingTable) (machine : Machine) :
      Guise.machine ⟨.same, table, Machine.binder?⟩ { machine with table := table' } =
        { machine with table } := by
    rw [Guise.machine, Machine.relabel_same]
  dsimp only at hexecutes ⊢
  rw [hmachine, Labels.counterpart_same] at hexecutes
  rw [hexecutes, Guise.machine, Machine.relabel_same]

namespace Session

/-- Runs a program with its lines told from those of all other code: its own are odd then, and the
others are even. -/
def runApart (fuel : Nat) (session : Session) (program : Program) (distances : List Distance) :
    Outcome × Session :=
  runBound fuel (session.onLines (2 * ·)) (Stmt.relabelAll (.lines (2 * · + 1)) program) distances

/-- What comes of a run, told with other lines. -/
def tell (f : Nat → Nat) (ended : Outcome × Session) : Outcome × Session :=
  ((Labels.lines f).outcome ended.1, ended.2.onLines f)

lemma runApart_tell {session : Session} (h : Reached session) (fuel : Nat) {m : Nat}
    (ht : Takes session.nextId (Stmt.idsAll program) m) (hp : Stmt.ProperAll program)
    (hr : Program.resolve program = .ok distances) {f : Nat → Nat} (hf : ∀ line, f (2 * line) = line) :
    runBound fuel { session with nextId := m }
        (Stmt.relabelAll (.lines fun line => f (2 * line + 1)) program) distances =
      tell f (runApart fuel { session with nextId := m } program distances) := by
  have hplain : (Labels.lines (2 * · + 1)).Plain := ⟨fun _ => Iff.rfl, fun _ => Iff.rfl⟩
  obtain ⟨watched, hknows, hsession⟩ := h.exists_knows (f := (2 * ·)) (g := (· / 2)) (by omega)
  have hproper := (Stmt.properAll_relabelAll hplain program).mpr hp
  have hresolve := Program.resolve_lines (f := (2 * · + 1)) (g := (· / 2)) (by omega) hr
  have htakes : Takes watched.session.nextId
      (Stmt.idsAll (Stmt.relabelAll (.lines (2 * · + 1)) program)) m := by
    rwa [Stmt.idsAll_relabelAll, hsession]
  have hruns := hknows.runBound_onLines fuel htakes hproper hresolve f
  have hback : (session.onLines (2 * ·)).onLines f = session := by
    rw [onLines_onLines, show f ∘ (2 * ·) = id from funext hf, onLines_id]
  rw [Stmt.relabelAll_relabelAll, hsession, hback] at hruns
  exact hruns

/-- The line of a token in two texts with a newline between: the token is of the second one if its line
is odd, where the lines are told apart. -/
def lineInWhole (first : String) (line : Nat) : Nat :=
  if line % 2 = 1 then line / 2 + Text.newlines first else line / 2

lemma written_onLines (f : Nat → Nat) (session : Session) :
    (session.onLines f).written = session.written := by
  rw [onLines, written, Machine.relabel, written]

lemma table_onLines (f : Nat → Nat) (session : Session) :
    (session.onLines f).machine.table = session.machine.table := by
  rw [onLines, Machine.relabel]

lemma nextId_onLines (f : Nat → Nat) (session : Session) :
    (session.onLines f).nextId = session.nextId := by
  rw [onLines]

lemma tell_same (f g : Nat → Nat) (ended : Outcome × Session) :
    (tell f ended).2.written = (tell g ended).2.written ∧
      (tell f ended).2.nextId = (tell g ended).2.nextId ∧
      (tell f ended).2.machine.table = (tell g ended).2.machine.table ∧
      (tell f ended).2.onLines (fun _ => 0) = (tell g ended).2.onLines (fun _ => 0) := by
  have hzero (f : Nat → Nat) : (fun _ => 0) ∘ f = fun _ : Nat => 0 := rfl
  simp only [tell, written_onLines, nextId_onLines, table_onLines, onLines_onLines, hzero, and_self]

lemma tell_cases (a : String) (ended : Outcome × Session) :
    (tell (· / 2) ended).1 = (tell (lineInWhole a) ended).1 ∨ ∃ cause line,
      ended.1 = .failure (.runtime ⟨cause, 2 * line + 1⟩) ∧
        (tell (· / 2) ended).1 = .failure (.runtime ⟨cause, line⟩) ∧
        (tell (lineInWhole a) ended).1 = .failure (.runtime ⟨cause, line + Text.newlines a⟩) := by
  obtain ⟨result, session⟩ := ended
  rcases result with _ | ⟨_ | _ | _ | ⟨cause, line⟩⟩ | _
  case failure.runtime =>
    have htell (f : Nat → Nat) : (tell f (.failure (.runtime ⟨cause, line⟩), session)).1 =
        .failure (.runtime ⟨cause, f line⟩) := by
      rw [tell, Labels.outcome, Labels.error, Labels.cause_eq rfl, Labels.lines]
    rw [htell, htell, lineInWhole]
    by_cases hodd : line % 2 = 1
    · have hline : 2 * (line / 2) + 1 = line := by omega
      refine .inr ⟨cause, line / 2, by rw [hline], rfl, ?_⟩
      rw [if_pos hodd]
    · rw [if_neg hodd]
      exact .inl rfl
  all_goals exact .inl rfl

/-- A text runs in a session as the part behind a first one that succeeds runs there after it. -/
lemma run_line {session : Session} (h : Reached session) (fuel : Nat) {a b : String} {k m : Nat}
    (ha : Program.ofSource? session.nextId a = some (program, k, distances))
    (hb : Program.ofSource? k b = some (later, m, distances'))
    (hok : (session.run fuel a).1 = .success) :
    session.run fuel (a ++ "\n" ++ b) =
      runBound fuel { (session.run fuel a).2 with nextId := m }
        (Stmt.relabelAll (.lines (· + Text.newlines a)) later) distances' := by
  obtain ⟨watched, hknows, hsession⟩ := h.exists_knows (f := id) (g := id) fun _ => rfl
  rw [onLines_id] at hsession
  subst hsession
  have hextended := hknows.execute_extended fuel (Program.takes_of_source ha)
    (Program.proper_of_source ha) (Program.resolve_of_source ha) (Program.takes_of_source hb)
    (Program.resolve_of_source hb)
  have htable := hknows.toKeeps.table_executes fuel (Program.takes_of_source ha)
    (Program.proper_of_source ha) (Program.resolve_of_source ha)
  rw [run_of_source fuel ha, runBound_eq] at hok ⊢
  rw [run_of_source fuel (Program.ofSource?_line ha hb), runBound_eq, runBound_eq]
  dsimp only at hextended htable hok ⊢
  rw [BindingTable.extend_append, Program.outcome_execute_append, hextended]
  generalize outcome (Program.execute fuel program) _ = ended at hok htable ⊢
  obtain ⟨halt | _, machine⟩ := ended
  · cases halt <;> simp [Outcome.ofRun] at hok
  · rw [htable]

section Ending

variable {session : Session} (h : Reached session) (fuel : Nat) {a b : String} {k m : Nat}
  (ha : Program.ofSource? session.nextId a = some (program, k, distances))
  (hb : Program.ofSource? k b = some (later, m, distances'))

include h ha hb

lemma tell_after {f : Nat → Nat} (hf : ∀ line, f (2 * line) = line) :
    runBound fuel { (session.run fuel a).2 with nextId := m }
        (Stmt.relabelAll (.lines fun line => f (2 * line + 1)) later) distances' =
      tell f (runApart fuel { (session.run fuel a).2 with nextId := m } later distances') := by
  have htakes : Takes (session.run fuel a).2.nextId (Stmt.idsAll later) m := by
    rw [run_of_source fuel ha]
    exact Program.takes_of_source hb
  exact runApart_tell (.run fuel a h) fuel htakes (Program.proper_of_source hb)
    (Program.resolve_of_source hb) hf

lemma run_second : (session.run fuel a).2.run fuel b =
    tell (· / 2) (runApart fuel { (session.run fuel a).2 with nextId := m } later distances') := by
  have hlines : Labels.lines (fun line => (2 * line + 1) / 2) = .same :=
    congrArg₂ Labels.mk (funext fun line => by simp only [id]; omega) rfl
  have htell := tell_after h fuel ha hb (f := (· / 2)) (by omega)
  rw [hlines, Stmt.relabelAll_same] at htell
  rw [← htell]
  refine run_of_source fuel ?_
  rwa [run_of_source fuel ha]

lemma run_whole (hok : (session.run fuel a).1 = .success) : session.run fuel (a ++ "\n" ++ b) =
    tell (lineInWhole a)
      (runApart fuel { (session.run fuel a).2 with nextId := m } later distances') := by
  have heven (line : Nat) : lineInWhole a (2 * line) = line := by
    rw [lineInWhole, if_neg (by omega)]
    omega
  have hodd (line : Nat) : lineInWhole a (2 * line + 1) = line + Text.newlines a := by
    rw [lineInWhole, if_pos (by omega)]
    omega
  have htell := tell_after h fuel ha hb heven
  simp only [hodd] at htell
  rw [← htell]
  exact run_line h fuel ha hb hok

/-- If a text without faults succeeds in a session, to run another one after it is to run both as one
text with a newline between. What is printed is the same, and the second text ends as the whole one:
well, or with the same error at the same token. Its line in the whole text is later, if it is a token
of the second one. The sessions left are the same, but for the lines in their code. -/
theorem run_append (hok : (session.run fuel a).1 = .success) :
    let after := (session.run fuel a).2
    let apart := runApart fuel { after with nextId := m } later distances'
    let second := after.run fuel b
    let whole := session.run fuel (a ++ "\n" ++ b)
    second = tell (· / 2) apart ∧ whole = tell (lineInWhole a) apart ∧
      (second.1 = whole.1 ∨ ∃ cause line,
        apart.1 = .failure (.runtime ⟨cause, 2 * line + 1⟩) ∧
          second.1 = .failure (.runtime ⟨cause, line⟩) ∧
          whole.1 = .failure (.runtime ⟨cause, line + Text.newlines a⟩)) ∧
      second.2.written = whole.2.written ∧ second.2.nextId = whole.2.nextId ∧
      second.2.machine.table = whole.2.machine.table ∧
      second.2.onLines (fun _ => 0) = whole.2.onLines (fun _ => 0) := by
  have hsecond := run_second h fuel ha hb
  have hwhole := run_whole h fuel ha hb hok
  dsimp only
  rw [hsecond, hwhole]
  exact ⟨rfl, rfl, tell_cases a _, tell_same _ _ _⟩

end Ending

/-- A variable that is no function is called on the line after its declaration. -/
theorem run_append_of_failing_call :
    let session := initial none fun _ => 0
    let second := (session.run 9 "var f;").2.run 9 "f();"
    let whole := session.run 9 ("var f;" ++ "\n" ++ "f();")
    second.1 = .failure (.runtime ⟨.notCallable, 1⟩) ∧
      whole.1 = .failure (.runtime ⟨.notCallable, 2⟩) ∧ second.2.written = whole.2.written ∧
      second.2.onLines (fun _ => 0) = whole.2.onLines (fun _ => 0) := by
  have ha : Program.ofSource? 0 "var f;" = some ([.varDecl ⟨"f", 1⟩ none], 0, []) := by cbv
  have hb : Program.ofSource? 0 "f();" =
      some ([.expression (.call (.read ⟨0, ⟨"f", 1⟩⟩) [] 1)], 1, []) := by cbv
  have hok : ((initial none fun _ => 0).run 9 "var f;").1 = .success := by
    rw [run_of_source 9 ha]
    rfl
  obtain ⟨-, -, -, hwritten, -, -, hlines⟩ := run_append (.initial none fun _ => 0) 9 ha hb hok
  refine ⟨?_, ?_, hwritten, hlines⟩
  · have hrun : ((initial none fun _ => 0).run 9 "var f;").2.run 9 "f();" = _ :=
      run_of_source 9 (by rw [run_of_source 9 ha]; exact hb)
    rw [hrun, run_of_source 9 ha]
    rfl
  · have hrun : (initial none fun _ => 0).run 9 ("var f;" ++ "\n" ++ "f();") = _ :=
      run_of_source 9 (Program.ofSource?_line ha hb)
    rw [hrun]
    rfl

end Session

end Lox
