import Lox.Proofs.Grammar.Acceptance
import Lox.Proofs.Identity.Derived
import Lox.Proofs.Identity.Running
import Lox.Proofs.Identity.Scoping
import Lox.Proofs.Session.Reports
import Mathlib

/-! Source texts that fail before they run leave no trace. A session with them differs from one
without them in the identities that they take, and in nothing else. -/

namespace Lox

/-- The items that are marked. -/
def kept {α : Type} : List Bool → List α → List α
  | true :: marks, item :: rest => item :: kept marks rest
  | false :: marks, _ :: rest => kept marks rest
  | _, _ => []

namespace Session

/-- How many identities a source text takes. -/
def taken (source : String) : Nat :=
  match Token.scan source with
  | .error _ => 0
  | .ok tokens => (Program.parse tokens 0).2

lemma parse_at (tokens : List Token) (n : Nat) :
    Program.parse tokens n =
      ((Program.parse tokens 0).1.map (Stmt.renameAll (· + n)), (Program.parse tokens 0).2 + n) := by
  rw [← Program.parse_shift, Nat.zero_add]

lemma nextId_run (fuel : Nat) (session : Session) (source : String) :
    (session.run fuel source).2.nextId = session.nextId + taken source := by
  unfold run taken
  cases Token.scan source with
  | error errors => rfl
  | ok tokens =>
    simp only [runTokens, parse_at tokens session.nextId]
    rcases Program.parse tokens 0 with ⟨errors | program, m⟩
    · exact Nat.add_comm ..
    · simp only [Except.map]
      cases Program.resolve (Stmt.renameAll (· + session.nextId) program) <;>
        simp [runBound_eq, Nat.add_comm]

/-- The identity in a session with all the texts that corresponds to one in a session with those
that are kept. The next identities are `n'` in the first and `n` in the second. -/
def matching : List Bool → List String → (n n' : Nat) → Nat → Nat
  | true :: marks, source :: rest, n, n', i =>
    if i < n + taken source then i - n + n'
    else matching marks rest (n + taken source) (n' + taken source) i
  | false :: marks, source :: rest, n, n', i => matching marks rest n (n' + taken source) i
  | _, _, n, n', i => i - n + n'

lemma le_matching (marks : List Bool) (sources : List String) (n n' i : Nat) :
    n' ≤ matching marks sources n n' i := by
  induction marks, sources, n, n', i using matching.induct with
  | case1 marks source rest n n' i hi =>
    rw [matching, if_pos hi]
    omega
  | case2 marks source rest n n' i hi ih =>
    rw [matching, if_neg hi]
    omega
  | case3 marks source rest n n' i ih =>
    rw [matching]
    omega
  | case4 marks sources n n' i => rw [matching] <;> omega

lemma matching_lt (marks : List Bool) (sources : List String) (n' : Nat) {n i j : Nat}
    (hn : n ≤ i) (hij : i < j) : matching marks sources n n' i < matching marks sources n n' j := by
  induction marks, sources, n, n', i using matching.induct with
  | case1 marks source rest n n' i hi =>
    have hle := le_matching marks rest (n + taken source) (n' + taken source) j
    simp only [matching, if_pos hi]
    split <;> omega
  | case2 marks source rest n n' i hi ih =>
    have hj : ¬ j < n + taken source := by omega
    simp only [matching, if_neg hi, if_neg hj]
    exact ih (by omega) hij
  | case3 marks source rest n n' i ih =>
    simp only [matching]
    exact ih hn hij
  | case4 marks sources n n' i h h' =>
    have heq (k : Nat) : matching marks sources n n' k = k - n + n' := by
      rw [matching] <;> assumption
    rw [heq, heq]
    omega

lemma matching_injective (marks : List Bool) (sources : List String) (n' : Nat) :
    Function.Injective (matching marks sources 0 n') := by
  intro i j hij
  rcases Nat.lt_trichotomy i j with h | h | h
  · have := matching_lt marks sources n' (Nat.zero_le i) h
    omega
  · exact h
  · have := matching_lt marks sources n' (Nat.zero_le j) h
    omega

variable {ρ : Nat → Nat} {session session' : Session}

lemma runBound_corresponds (hρ : Function.Injective ρ) (fuel : Nat) {m m' : Nat}
    {machine machine' : Machine}
    (h : Corresponds ρ machine machine') (program : Program) (distances : List Distance) :
    (runBound fuel ⟨m', machine'⟩ (Stmt.renameAll ρ program)
        (distances.map fun (id, distance) => (ρ id, distance))).1 =
      (runBound fuel ⟨m, machine⟩ program distances).1 ∧
    Corresponds ρ (runBound fuel ⟨m, machine⟩ program distances).2.machine
      (runBound fuel ⟨m', machine'⟩ (Stmt.renameAll ρ program)
        (distances.map fun (id, distance) => (ρ id, distance))).2.machine := by
  obtain ⟨hresult, hafter⟩ := Program.execute_simulates ρ fuel program _ _ (h.extend hρ distances)
  have hid (result : Except Halt Unit) : result.map id = result := by cases result <;> rfl
  refine ⟨?_, hafter⟩
  rw [hid] at hresult
  exact congrArg Outcome.ofRun hresult

lemma run_corresponds (hρ : Function.Injective ρ) (fuel : Nat) (source : String)
    (h : Corresponds ρ session.machine session'.machine)
    (hids : ∀ i < taken source, ρ (i + session.nextId) = i + session'.nextId) :
    (session'.run fuel source).1 = (session.run fuel source).1 ∧
      Corresponds ρ (session.run fuel source).2.machine (session'.run fuel source).2.machine := by
  unfold run
  unfold taken at hids
  cases hs : Token.scan source with
  | error errors => exact ⟨rfl, h⟩
  | ok tokens =>
    simp only [hs] at hids
    simp only [runTokens, parse_at tokens session.nextId, parse_at tokens session'.nextId]
    rcases hp : Program.parse tokens 0 with ⟨errors | tree, m⟩
    · exact ⟨rfl, h⟩
    · have htakes := (Parser.parse_sound hp).takes
      have htree : Stmt.renameAll (· + session'.nextId) tree =
          Stmt.renameAll ρ (Stmt.renameAll (· + session.nextId) tree) := by
        rw [Stmt.renameAll_renameAll]
        refine Stmt.renameAll_congr tree fun i hi => ?_
        rw [hp] at hids
        exact (hids i (htakes.mem_iff.mp hi).2).symm
      simp only [Except.map, htree]
      generalize Stmt.renameAll (· + session.nextId) tree = program
      rw [Program.resolve_rename]
      cases Program.resolve program with
      | error violations => exact ⟨rfl, h⟩
      | ok distances => exact runBound_corresponds hρ fuel h _ distances

lemma writtenSince_corresponds {after after' : Session}
    (h : Corresponds ρ session.machine session'.machine)
    (hafter : Corresponds ρ after.machine after'.machine) :
    after'.writtenSince session' = after.writtenSince session := by
  simp only [writtenSince, written, h.output, hafter.output]

lemma reports_kept (hρ : Function.Injective ρ) (fuel : Nat) (marks : List Bool)
    (sources : List String) (h : Corresponds ρ session.machine session'.machine)
    (hids : ∀ i, session.nextId ≤ i →
      ρ i = matching marks sources session.nextId session'.nextId i)
    (hstatic : ∀ entry ∈ (session'.reports fuel sources).zip marks,
      entry.2 = false → entry.1.1.isStatic = true) :
    session.reports fuel (kept marks sources) = kept marks (session'.reports fuel sources) := by
  induction sources generalizing session session' marks with
  | nil => cases marks with
    | nil => rfl
    | cons mark marks => cases mark <;> rfl
  | cons source rest ih =>
    rcases marks with _ | ⟨_ | _, marks⟩
    · rfl
    · -- The text is left out: only the next identity of the second session changes.
      simp only [reports, List.zip_cons_cons, List.forall_mem_cons] at hstatic
      have hmachine := machine_run_of_isStatic (hstatic.1 trivial)
      simp only [kept, reports]
      refine ih marks (by rwa [hmachine]) (fun i hi => ?_) hstatic.2
      rw [nextId_run]
      exact hids i hi
    · simp only [reports, List.zip_cons_cons, List.forall_mem_cons] at hstatic
      obtain ⟨houtcome, hafter⟩ := run_corresponds hρ fuel source h fun i hi => by
        rw [hids _ (Nat.le_add_left ..), matching, if_pos (by omega)]
        omega
      simp only [kept, reports]
      rw [houtcome, writtenSince_corresponds h hafter]
      refine congrArg (_ :: ·) (ih marks hafter (fun i hi => ?_) hstatic.2)
      rw [nextId_run] at hi
      rw [nextId_run, nextId_run, hids i (by omega), matching, if_neg (by omega)]

/-- Of source texts run one after another, leave out any that fail before they run: all the others
end as before and print what they did before. -/
theorem reports_without_static_failures (fuel : Nat) (limit : Option Nat) (reading : Nat → Float)
    (marks : List Bool) (sources : List String)
    (h : ∀ entry ∈ ((initial limit reading).reports fuel sources).zip marks,
      entry.2 = false → entry.1.1.isStatic = true) :
    (initial limit reading).reports fuel (kept marks sources) =
      kept marks ((initial limit reading).reports fuel sources) := by
  refine reports_kept (matching_injective marks sources 0) fuel marks sources ?_
    (fun i _ => rfl) h
  exact
    { frames := rfl
      functions := by simp [initial, Machine.initial]
      classes := by simp [initial, Machine.initial]
      instances := rfl
      current := rfl
      table := fun i => by simp [initial, Machine.initial]
      output := rfl
      clock := rfl }

/-- The text left out takes an identity before it fails. -/
theorem reports_without_missing_semicolon :
    (initial none fun _ => 0).reports 4 ["var a;", "print a;"] =
      kept [true, false, true]
        ((initial none fun _ => 0).reports 4 ["var a;", "a b;", "print a;"]) := by
  refine reports_without_static_failures 4 none _ [true, false, true]
    ["var a;", "a b;", "print a;"] ?_
  simp only [reports, List.zip_cons_cons, List.forall_mem_cons]
  exact ⟨by simp, fun _ => by cbv, by simp, by simp⟩

end Session

end Lox
