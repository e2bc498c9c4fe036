import Lox.Proofs.Grammar.Derivation
import Lox.Proofs.Grammar.Steps

/-! How far a parser comes. It passes no end mark, and of the faults that end a declaration each is met
further on than the one before, until the end is reached. -/

namespace Lox

namespace ParseError

/-- Whether a fault for this cause ends the declaration in which it is. -/
def Cause.isFatal : Cause → Bool
  | expected _ | expectedExpression => true
  | invalidAssignmentTarget | tooMany _ => false

def isFatal (e : ParseError) : Bool :=
  e.cause.isFatal

/-- The fault is at the first of these tokens; at the end, if that is an end mark or there is none. -/
structure FoundAt (e : ParseError) (offending : List Token) : Prop where
  remaining : e.remaining = offending.length
  line : e.line = offending.head?.elim 0 Token.line
  found : e.found = offending.head?.bind Token.found?

/-- The other fault is at a token further on, but for a fault at the end, after which it is there too. -/
structure Precedes (e e' : ParseError) : Prop where
  further : e.found ≠ none → e'.remaining < e.remaining
  atEnd : e.found = none → e'.found = none ∧ e'.remaining = e.remaining

/-- The fault is at a token passed between the cursors, or at the end if the second one is there. -/
def Between (c d : Cursor) (e : ParseError) : Prop :=
  ∃ offending, offending <:+ c.rest ∧ e.FoundAt offending ∧
    if e.found = none then offending = d.rest else d.rest.length < offending.length

end ParseError

lemma found?_head?_eq_none_iff {rest : List Token} :
    rest.head?.bind Token.found? = none ↔ Parser.closes false rest = true := by
  cases rest <;> simp [Token.found?, Parser.closes]

lemma Cursor.foundAt_fault (c : Cursor) (cause : ParseError.Cause) (rule : Rule) :
    (c.fault cause rule).FoundAt c.rest := by
  unfold Cursor.fault
  cases h : c.rest <;> exact ⟨rfl, rfl, rfl⟩

lemma Cursor.cause_fault (c : Cursor) (cause : ParseError.Cause) (rule : Rule) :
    (c.fault cause rule).cause = cause := by
  unfold Cursor.fault
  cases c.rest <;> rfl

lemma ParseError.FoundAt.found_eq_none_iff {e : ParseError} {offending : List Token}
    (h : e.FoundAt offending) : e.found = none ↔ Parser.closes false offending = true := by
  rw [h.found, found?_head?_eq_none_iff]

namespace Cursor

/-- The fatal faults met so far, the latest first. -/
def fatal (c : Cursor) : List ParseError :=
  c.errors.filter ParseError.isFatal

/-- One cursor comes of another: tokens are passed, no end mark among them, and fatal faults are met
at them, or at the end, one after the other. -/
structure Advances (c d : Cursor) : Prop where
  passed : ∃ ts, Unended ts ∧ c.rest = ts ++ d.rest
  met : ∃ new, d.fatal = new ++ c.fatal ∧ (∀ e ∈ new, e.Between c d) ∧
    new.Pairwise fun later e => e.Precedes later

variable {b c d : Cursor} {e e' : ParseError}

lemma Advances.suffix (h : c.Advances d) : d.rest <:+ c.rest := by
  obtain ⟨ts, -, hrest⟩ := h.passed
  exact ⟨ts, hrest.symm⟩

/-- From the end no parser gets away. -/
lemma Advances.rest_eq (h : c.Advances d) (hend : Parser.closes false c.rest = true) :
    d.rest = c.rest := by
  obtain ⟨ts, hts, hrest⟩ := h.passed
  cases ts with
  | nil => exact hrest.symm
  | cons t ts =>
    rw [hrest] at hend
    exact absurd (by simpa [Parser.closes] using hend) (unended_cons.mp hts).1

lemma Advances.of_fatal (hpassed : ∃ ts, Unended ts ∧ c.rest = ts ++ d.rest) (hfatal : d.fatal = c.fatal) :
    c.Advances d :=
  ⟨hpassed, [], hfatal, nofun, .nil⟩

lemma Advances.refl (c : Cursor) : c.Advances c :=
  .of_fatal ⟨[], unended_nil, rfl⟩ rfl

lemma Advances.between_left (h : c.Advances d) (he : e.Between b c) : e.Between b d := by
  obtain ⟨offending, hsuffix, hfound, hplace⟩ := he
  refine ⟨offending, hsuffix, hfound, ?_⟩
  split at hplace
  · rename_i hnone
    rw [if_pos hnone, hplace]
    have hend := hfound.found_eq_none_iff.mp hnone
    exact (h.rest_eq (hplace ▸ hend)).symm
  · rename_i hsome
    rw [if_neg hsome]
    exact Nat.lt_of_le_of_lt h.suffix.length_le hplace

lemma Advances.between_right (h : b.Advances c) (he : e.Between c d) : e.Between b d := by
  obtain ⟨offending, hsuffix, hfound, hplace⟩ := he
  exact ⟨offending, hsuffix.trans h.suffix, hfound, hplace⟩

/-- A fault met on the second part of the way is further on than one met on the first. -/
lemma Advances.precedes (h : c.Advances d) (he : e.Between b c) (he' : e'.Between c d) :
    e.Precedes e' := by
  obtain ⟨offending, -, hfound, hplace⟩ := he
  obtain ⟨offending', hsuffix', hfound', hplace'⟩ := he'
  constructor
  · intro hsome
    rw [if_neg hsome] at hplace
    rw [hfound.remaining, hfound'.remaining]
    exact Nat.lt_of_le_of_lt hsuffix'.length_le hplace
  · intro hnone
    rw [if_pos hnone] at hplace
    have hend := hfound.found_eq_none_iff.mp hnone
    have hrest : d.rest = c.rest := h.rest_eq (hplace ▸ hend)
    -- The second fault cannot be at a token passed, as there is none.
    have hnone' : e'.found = none := by
      by_contra hsome'
      rw [if_neg hsome', hrest] at hplace'
      exact absurd hsuffix'.length_le (Nat.not_le_of_lt hplace')
    rw [if_pos hnone', hrest] at hplace'
    rw [hfound.remaining, hfound'.remaining, hplace', hplace]
    exact ⟨hnone', rfl⟩

lemma Advances.trans (h : b.Advances c) (h' : c.Advances d) : b.Advances d := by
  obtain ⟨⟨ts, hts, hrest⟩, new, hmet, hbetween, hpairwise⟩ := id h
  obtain ⟨⟨us, hus, hrest'⟩, new', hmet', hbetween', hpairwise'⟩ := id h'
  refine ⟨⟨ts ++ us, unended_append.mpr ⟨hts, hus⟩, ?_⟩, new' ++ new, ?_, ?_, ?_⟩
  · rw [hrest, hrest', List.append_assoc]
  · rw [hmet', hmet, List.append_assoc]
  · refine List.forall_mem_append.mpr ⟨fun e he => ?_, fun e he => ?_⟩
    · exact h.between_right (hbetween' e he)
    · exact h'.between_left (hbetween e he)
  · refine List.pairwise_append.mpr ⟨hpairwise', hpairwise, fun later hlater e he => ?_⟩
    exact h'.precedes (hbetween e he) (hbetween' later hlater)

lemma Advances.skip (h : Parser.closes false c.rest = false) :
    c.Advances { c with rest := c.rest.tail } := by
  refine .of_fatal ?_ rfl
  cases hrest : c.rest with
  | nil => simp [hrest, Parser.closes] at h
  | cons t rest => exact ⟨[t], by simpa [hrest, Parser.closes] using h, rfl⟩

lemma Advances.report (h : e.isFatal = false) :
    c.Advances { c with errors := e :: c.errors } := by
  refine .of_fatal ⟨[], unended_nil, rfl⟩ ?_
  rw [fatal, List.filter_cons_of_neg (by simp [h])]
  rfl

end Cursor

lemma resumption_passes (rest : List Token) : ∃ ts, Unended ts ∧ rest = ts ++ resumption rest := by
  induction rest with
  | nil => exact ⟨[], unended_nil, rfl⟩
  | cons t rest ih =>
    obtain ⟨ts, hts, hrest⟩ := ih
    rw [resumption]
    split_ifs with hend hsemicolon hbegins
    · exact ⟨[], unended_nil, rfl⟩
    · exact ⟨[t], by simpa using hend, rfl⟩
    · exact ⟨[t], by simpa using hend, rfl⟩
    · exact ⟨t :: ts, unended_cons.mpr ⟨hend, hts⟩, by rw [List.cons_append, ← hrest]⟩

lemma resumption_atEnd {rest : List Token} (h : Parser.closes false rest = true) :
    resumption rest = rest := by
  cases rest with
  | nil => rfl
  | cons t rest => exact if_pos (by simpa [Parser.closes] using h)

lemma resumption_suffix_tail {rest : List Token} (h : Parser.closes false rest = false) :
    resumption rest <:+ rest.tail := by
  cases rest with
  | nil => simp [Parser.closes] at h
  | cons t rest =>
    obtain ⟨ts, -, hrest⟩ := resumption_passes rest
    have ht : t.kind ≠ .eof := by simpa [Parser.closes] using h
    rw [resumption, if_neg ht, List.tail_cons]
    split_ifs
    · exact List.suffix_refl rest
    · exact List.suffix_refl rest
    · exact ⟨ts, hrest.symm⟩

lemma length_resumption_lt {rest : List Token} (h : Parser.closes false rest = false) :
    (resumption rest).length < rest.length := by
  have hle := (resumption_suffix_tail h).length_le
  cases rest with
  | nil => simp [Parser.closes] at h
  | cons t rest => exact Nat.lt_succ_of_le hle

end Lox
