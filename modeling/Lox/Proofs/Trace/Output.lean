import Lox.Proofs.Trace.Session

/-! Programs on an output that takes only so many bytes. Where they are enough, the run is the same as with
an output that takes all. Else it is the same up to the print statement that writes one byte too many. -/

namespace Lox

namespace Deed

def printed : Deed → ByteArray
  | prints _ bytes => bytes
  | returns .. | ends .. | finishes .. => .empty

def printedAll : List Deed → ByteArray
  | [] => .empty
  | deed :: rest => deed.printed ++ printedAll rest

lemma printedAll_append (deeds more : List Deed) :
    printedAll (deeds ++ more) = printedAll deeds ++ printedAll more := by
  induction deeds with
  | nil => exact ByteArray.empty_append.symm
  | cons deed rest ih => rw [List.cons_append, printedAll, printedAll, ih, ByteArray.append_assoc]

lemma IsSilent.printed_eq {deed : Deed} (h : deed.IsSilent) : deed.printed = .empty := by
  cases deed with
  | prints => exact h.elim
  | returns | ends | finishes => rfl

/-- Of all that is printed, the byte that this many bytes come before is written by a print statement on
the line. -/
def WritesByte (deeds : List Deed) (place line : Nat) : Prop :=
  ∃ before bytes behind, deeds = before ++ prints line bytes :: behind ∧
    (printedAll before).size ≤ place ∧ place < (printedAll before).size + bytes.size

variable {deeds : List Deed} {place line : Nat}

lemma WritesByte.append (h : WritesByte deeds place line) (more : List Deed) :
    WritesByte (deeds ++ more) place line := by
  obtain ⟨before, bytes, behind, rfl, hle, hlt⟩ := h
  exact ⟨before, bytes, behind ++ more, by simp, hle, hlt⟩

lemma WritesByte.after (h : WritesByte deeds place line) (earlier : List Deed) :
    WritesByte (earlier ++ deeds) ((printedAll earlier).size + place) line := by
  obtain ⟨before, bytes, behind, rfl, hle, hlt⟩ := h
  refine ⟨earlier ++ before, bytes, behind, by simp, ?_, ?_⟩ <;>
    rw [printedAll_append, ByteArray.size_append] <;> omega

end Deed

def Machine.limited (m : Machine) (limit : Nat) : Machine :=
  { m with output := { m.output with limit := some limit } }

def Trace.written (t : Trace) : ByteArray :=
  t.machine.output.written

namespace TracedRun

open Deed

variable {α β : Type}

/-- Deeds that go from one moment of a run to a later one. The output takes everything. -/
structure Adds (t : Trace) (deeds : List Deed) (t' : Trace) : Prop where
  deeds_eq : t'.deeds = t.deeds ++ deeds
  output_eq : t'.machine.output = ⟨none, t.written ++ printedAll deeds⟩

/-- How a run on an output that takes so many bytes ends, given how it ends on one that takes all. -/
structure Limits (t : Trace) (deeds : List Deed) (limit : Nat) (ended : Except Halt α × Trace)
    (ended' : Except Halt α × Machine) : Prop where
  fits : ended.2.written.size ≤ limit →
    ended' = (ended.1, ended.2.machine.limited limit)
  full : limit < ended.2.written.size →
    ∃ line, WritesByte deeds (limit - t.written.size) line ∧
      ended'.1 = .error (.error ⟨.outputFull, line⟩) ∧
      ended'.2.output.written = ended.2.written.extract 0 limit

/-- A full output only cuts the run short. -/
def Cuts (x : TracedRun α) (y : Run α) : Prop :=
  ∀ t, t.machine.output.limit = none →
    ∃ deeds, Adds t deeds (outcome x t).2 ∧
      ∀ limit, t.written.size ≤ limit →
        Limits t deeds limit (outcome x t) (outcome y (t.machine.limited limit))

section Adding

variable {t t' t'' : Trace} {deeds more : List Deed}

lemma Adds.written_eq (h : Adds t deeds t') : t'.written = t.written ++ printedAll deeds :=
  congrArg Output.written h.output_eq

lemma Adds.limit_eq (h : Adds t deeds t') : t'.machine.output.limit = none :=
  congrArg Output.limit h.output_eq

lemma Adds.trans (h : Adds t deeds t') (h' : Adds t' more t'') : Adds t (deeds ++ more) t'' where
  deeds_eq := by rw [h'.deeds_eq, h.deeds_eq, List.append_assoc]
  output_eq := by
    rw [h'.output_eq, h.written_eq, printedAll_append, ByteArray.append_assoc]

lemma Adds.size_eq (h : Adds t deeds t') :
    t'.written.size = t.written.size + (printedAll deeds).size := by
  rw [h.written_eq, ByteArray.size_append]

lemma Adds.extract_eq (h : Adds t deeds t') {limit : Nat} (hlt : limit < t.written.size) :
    t'.written.extract 0 limit = t.written.extract 0 limit := by
  have hnone : limit - t.written.size = 0 := Nat.sub_eq_zero_of_le (Nat.le_of_lt hlt)
  rw [h.written_eq, ByteArray.extract_append, hnone]
  simp

end Adding

section Rules

lemma cuts_lift {x : Run α} (hx : Run.Oblivious x) : Cuts (lift x) x := by
  intro t ht
  have houtput := hx.output_eq t.machine
  refine ⟨[], ⟨(List.append_nil _).symm, ?_⟩, fun limit hle => ?_⟩
  · rw [outcome_lift, printedAll, ByteArray.append_empty, houtput, ← ht]
    rfl
  · have hsize : (outcome (lift x) t).2.written = t.written := congrArg Output.written houtput
    refine ⟨fun _ => ?_, fun hlt => absurd hle (by rw [← hsize]; exact Nat.not_le_of_lt hlt)⟩
    rw [Machine.limited, hx, outcome_lift, Machine.limited, houtput]

lemma outcome_bind_of_error {y : Run α} {g : α → Run β} {m : Machine} {halt : Halt}
    (h : (outcome y m).1 = .error halt) :
    outcome (y >>= g) m = (.error halt, (outcome y m).2) := by
  rw [outcome_bind]
  rcases hy : outcome y m with ⟨result, m'⟩
  rw [hy] at h
  dsimp only at h
  subst h
  rfl

/-- What comes after the output is full is not run. -/
lemma Cuts.bind {x : TracedRun α} {y : Run α} {f : α → TracedRun β} {g : α → Run β}
    (hx : Cuts x y) (hf : ∀ a, Cuts (f a) (g a)) : Cuts (x >>= f) (y >>= g) := by
  intro t ht
  obtain ⟨deeds, hadds, hlimits⟩ := hx t ht
  rw [outcome_bind]
  rcases hfirst : outcome x t with ⟨halt | a, t'⟩ <;> rw [hfirst] at hadds hlimits
  · refine ⟨deeds, hadds, fun limit hle => ⟨fun hsize => ?_, fun hsize => ?_⟩⟩
    · rw [outcome_bind, (hlimits limit hle).fits hsize]
    · obtain ⟨line, hline, hresult, hwritten⟩ := (hlimits limit hle).full hsize
      rw [outcome_bind_of_error hresult]
      exact ⟨line, hline, rfl, hwritten⟩
  · obtain ⟨more, hadds', hlimits'⟩ := hf a t' hadds.limit_eq
    refine ⟨deeds ++ more, hadds.trans hadds', fun limit hle => ?_⟩
    -- The output is full either in the second part or already in the first.
    by_cases hsize : t'.written.size ≤ limit
    · obtain ⟨hfits, hfull⟩ := hlimits' limit hsize
      rw [outcome_bind, (hlimits limit hle).fits hsize]
      refine ⟨hfits, fun hlt => ?_⟩
      obtain ⟨line, hline, hrest⟩ := hfull hlt
      have hplace : limit - t.written.size =
          (printedAll deeds).size + (limit - t'.written.size) := by
        have hsum := hadds.size_eq
        dsimp only at hsum
        omega
      rw [hplace]
      exact ⟨line, hline.after deeds, hrest⟩
    · have hlt := Nat.lt_of_not_le hsize
      obtain ⟨line, hline, hresult, hwritten⟩ := (hlimits limit hle).full hlt
      have hgrown := hadds'.size_eq
      rw [outcome_bind_of_error hresult]
      refine ⟨fun hfits => ?_, fun _ => ⟨line, hline.append more, rfl, ?_⟩⟩
      · exact absurd hfits (by dsimp only at hgrown ⊢; omega)
      · exact hwritten.trans (hadds'.extract_eq hlt).symm

lemma Cuts.silent {deed : Deed} (hsilent : deed.IsSilent) {f : Unit → TracedRun α} {y : Run α}
    (hf : Cuts (f ()) y) : Cuts (record deed >>= f) y := by
  intro t ht
  obtain ⟨deeds, hadds, hlimits⟩ := hf { t with deeds := t.deeds ++ [deed] } ht
  have hempty : printedAll [deed] = .empty := by
    rw [printedAll, hsilent.printed_eq]
    rfl
  have hstep : Adds t [deed] { t with deeds := t.deeds ++ [deed] } := by
    refine ⟨rfl, ?_⟩
    rw [hempty, ByteArray.append_empty, ← ht]
    rfl
  refine ⟨deed :: deeds, hstep.trans hadds, fun limit hle => ?_⟩
  obtain ⟨hfits, hfull⟩ := hlimits limit hle
  refine ⟨hfits, fun hlt => ?_⟩
  obtain ⟨line, hline, hrest⟩ := hfull hlt
  have hafter := hline.after [deed]
  rw [hempty, ByteArray.size_empty, Nat.zero_add] at hafter
  exact ⟨line, hafter, hrest⟩

lemma extract_of_size_le {bytes : ByteArray} {limit : Nat} (h : bytes.size ≤ limit) :
    bytes.extract 0 limit = bytes := by
  rw [← Nat.max_eq_left h]
  exact ByteArray.extract_zero_max_size

lemma cuts_print (text : String) (line : Nat) : Cuts (print text line) (Run.print text line) := by
  intro t ht
  set bytes := (text ++ "\n").toUTF8 with hbytes
  have houtput : t.machine.output = ⟨none, t.written⟩ := by
    rw [← ht]
    rfl
  have hprints : printedAll [.prints line bytes] = bytes := ByteArray.append_empty
  have hended : outcome (print text line) t =
      (.ok (), ⟨{ t.machine with output := ⟨none, t.written ++ bytes⟩ }, t.calls,
        t.deeds ++ [.prints line bytes]⟩) := by
    change ((outcome (Run.print text line) t.machine).1, Trace.mk _ _ _) = _
    rw [Run.outcome_print, houtput]
    rfl
  rw [hended]
  refine ⟨[.prints line bytes], ⟨rfl, by rw [hprints]⟩, fun limit hle => ?_⟩
  have hroom : (t.machine.limited limit).output.room = some (limit - t.written.size) := rfl
  have hsize : (t.written ++ bytes).size = t.written.size + bytes.size := ByteArray.size_append
  rw [Run.outcome_print, Output.fits, Output.write, hroom, ← hbytes]
  refine ⟨fun hfits => ?_, fun hfull => ?_⟩
  · have hall : bytes.size ≤ limit - t.written.size := by
      change (t.written ++ bytes).size ≤ limit at hfits
      omega
    rw [if_pos (by simpa using hall), Option.elim_some, extract_of_size_le hall]
    rfl
  · change limit < (t.written ++ bytes).size at hfull
    have hnot : ¬ bytes.size ≤ limit - t.written.size := by omega
    refine ⟨line, ⟨[], bytes, [], rfl, Nat.zero_le _, ?_⟩, if_neg (by simpa using hnot), ?_⟩
    · rw [printedAll, ByteArray.size_empty]
      omega
    · change t.written ++ bytes.extract 0 (limit - t.written.size) =
        (t.written ++ bytes).extract 0 limit
      rw [ByteArray.extract_append, extract_of_size_le hle, Nat.zero_sub]

lemma cuts_transfers : Transfers fun _ x y => Cuts x y where
  pure a := cuts_lift (Run.oblivious_pure a)
  throw halt := cuts_lift (x := throw halt) fun _ _ => rfl
  bind hx hf := hx.bind hf
  lift hx := cuts_lift hx
  look seen g hseen hf := by
    intro t ht
    obtain ⟨deeds, hadds, hlimits⟩ := hf (seen t.machine) t ht
    refine ⟨deeds, hadds, fun limit hle => ?_⟩
    have hsame : seen (t.machine.limited limit) = seen t.machine := hseen _ _
    change Limits t deeds limit _ (outcome (g (seen (t.machine.limited limit))) _)
    rw [hsame]
    exact hlimits limit hle
  within {α x y} frame hx := by
    intro t ht
    obtain ⟨deeds, hadds, hlimits⟩ := hx { t with machine.current := frame } ht
    refine ⟨deeds, ⟨hadds.deeds_eq, hadds.output_eq⟩, fun limit hle => ?_⟩
    obtain ⟨hfits, hfull⟩ := hlimits limit hle
    refine ⟨fun hsize => ?_, hfull⟩
    have hbody := hfits hsize
    rw [outcome_within, Run.outcome_within]
    change ((outcome y (Machine.limited { t.machine with current := frame } limit)).1,
      { (outcome y (Machine.limited { t.machine with current := frame } limit)).2 with
        current := t.machine.current }) = _
    rw [hbody]
    rfl
  print := cuts_print
  record {α deed f y} hsilent hf := hf.silent hsilent
  newCall hf := by
    intro t ht
    obtain ⟨deeds, hadds, hlimits⟩ := hf t.calls { t with calls := t.calls + 1 } ht
    exact ⟨deeds, ⟨hadds.deeds_eq, hadds.output_eq⟩, fun limit hle =>
      ⟨(hlimits limit hle).fits, (hlimits limit hle).full⟩⟩

end Rules

end TracedRun

namespace Session

/-- A text is run on an output that takes so many bytes in all. If they are enough for what the text
prints on one that takes everything, it ends in the same way and prints the same. Else the first bytes of
that are printed, as many as the output takes, and the text fails at the line of the print statement that
the next byte is from. -/
theorem run_limited (fuel : Nat) (reading : Nat → Float) (limit : Nat) (source : String) :
    let session := initial none reading
    let full := session.run fuel source
    let cut := (initial (some limit) reading).run fuel source
    let deeds := (session.traced fuel source).2
    (session.traced fuel source).1 = full ∧
      full.2.written = Deed.printedAll deeds ∧
      (full.2.written.size ≤ limit → cut.1 = full.1 ∧ cut.2.written = full.2.written) ∧
      (limit < full.2.written.size →
        cut.2.written = full.2.written.extract 0 limit ∧
          ∃ line, Deed.WritesByte deeds limit line ∧
            cut.1 = .failure (.runtime ⟨.outputFull, line⟩)) := by
  intro session full cut deeds
  refine ⟨session.traced_fst fuel source, ?_⟩
  cases hsource : Program.ofSource? session.nextId source with
  | none =>
    obtain ⟨outcome, nextId, hrun⟩ := run_of_no_source fuel hsource
    have hfull : full = (outcome, ⟨nextId, session.machine⟩) := hrun session.machine
    have hcut : cut = (outcome, ⟨nextId, (initial (some limit) reading).machine⟩) := hrun _
    have hdeeds : deeds = [] := congrArg Prod.snd (traced_of_no_source fuel hsource)
    rw [hfull, hcut, hdeeds]
    exact ⟨rfl, fun _ => ⟨rfl, rfl⟩, fun hlt => absurd hlt (Nat.not_lt_zero limit)⟩
  | some found =>
    obtain ⟨program, nextId, distances⟩ := found
    let start := session.start distances
    let ended := outcome (TracedRun.executeProgram fuel program) start
    let ended' := outcome (Program.execute fuel program) (start.machine.limited limit)
    have htraced : session.traced fuel source =
        ((.ofRun ended.1, ⟨nextId, ended.2.machine⟩), ended.2.deeds) := traced_of_source hsource fuel
    have hfull : full = (.ofRun ended.1, ⟨nextId, ended.2.machine⟩) :=
      (session.traced_fst fuel source).symm.trans (congrArg Prod.fst htraced)
    have hlimited : Program.ofSource? (initial (some limit) reading).nextId source =
      some (program, nextId, distances) := hsource
    have hcut : cut = (.ofRun ended'.1, ⟨nextId, ended'.2⟩) := run_eq_outcome hlimited fuel
    obtain ⟨added, hadds, hlimits⟩ := TracedRun.cuts_transfers.program fuel program start rfl
    have hdeeds : deeds = added := (congrArg Prod.snd htraced).trans hadds.deeds_eq
    obtain ⟨hfits, hover⟩ := hlimits limit (Nat.zero_le limit)
    rw [hfull, hcut, hdeeds]
    refine ⟨hadds.written_eq.trans ByteArray.empty_append, fun hsize => ?_, fun hlt => ?_⟩
    · have hended : ended' = (ended.1, ended.2.machine.limited limit) := hfits hsize
      rw [hended]
      exact ⟨rfl, rfl⟩
    · obtain ⟨line, hline, hresult, hwritten⟩ := hover hlt
      refine ⟨hwritten, line, hline, ?_⟩
      exact congrArg Outcome.ofRun hresult

end Session

end Lox
