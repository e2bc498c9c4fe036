import Lox.Proofs.Printed.Numeral

/-! The characters of a finite number, and that they tell which it is. -/

namespace Lox.Decimal

section Positional

variable {digits whole fraction : List Char} {n places : Nat}

lemma digitsValue_eq (digits : List Char) : digitsValue digits = Nat.ofDigitChars 10 digits 0 :=
  Nat.ofDigitChars_eq_foldl.symm

lemma ne_point_of_isDigit {c : Char} (h : c.isDigit = true) : (c != '.') = true := by
  rw [bne_iff_ne]
  rintro rfl
  exact absurd h (by decide)

/-- A text in positional notation stands for the number `n / 10 ^ places`. -/
def Denotes (chars : List Char) (n places : Nat) : Prop :=
  digitsValue (chars.filter (· != '.')) * 10 ^ places =
    n * 10 ^ (chars.dropWhile (· != '.')).tail.length

lemma denotes_whole (h : ∀ c ∈ digits, c.isDigit = true) :
    Denotes digits n places ↔ digitsValue digits * 10 ^ places = n := by
  have hpoint : ∀ c ∈ digits, (c != '.') = true := fun c hc => ne_point_of_isDigit (h c hc)
  rw [Denotes, List.filter_eq_self.mpr hpoint, List.dropWhile_eq_nil_iff.mpr hpoint, List.tail_nil,
    List.length_nil, pow_zero, Nat.mul_one]

lemma denotes_decimal (hwhole : ∀ c ∈ whole, c.isDigit = true)
    (hfraction : ∀ c ∈ fraction, c.isDigit = true) :
    Denotes (whole ++ '.' :: fraction) n places ↔
      digitsValue (whole ++ fraction) * 10 ^ places = n * 10 ^ fraction.length := by
  have hpoint : ∀ c ∈ whole, (c != '.') = true := fun c hc => ne_point_of_isDigit (hwhole c hc)
  have hpoint' : ∀ c ∈ fraction, (c != '.') = true :=
    fun c hc => ne_point_of_isDigit (hfraction c hc)
  have hfilter : (whole ++ '.' :: fraction).filter (· != '.') = whole ++ fraction := by
    rw [List.filter_append, List.filter_eq_self.mpr hpoint, List.filter_cons_of_neg (by simp),
      List.filter_eq_self.mpr hpoint']
  have hdrop : (whole ++ '.' :: fraction).dropWhile (· != '.') = '.' :: fraction := by
    rw [List.dropWhile_append_of_pos hpoint, List.dropWhile_cons_of_neg (by simp)]
  rw [Denotes, hfilter, hdrop, List.tail_cons]

lemma Denotes.unique {chars : List Char} {n' places' : Nat} (h : Denotes chars n places)
    (h' : Denotes chars n' places') : n * 10 ^ places' = n' * 10 ^ places := by
  unfold Denotes at h h'
  generalize (chars.dropWhile (· != '.')).tail.length = decimals at h h'
  refine Nat.eq_of_mul_eq_mul_right (Nat.pow_pos (n := decimals) (by decide : 0 < 10)) ?_
  linear_combination 10 ^ places * h' - 10 ^ places' * h

/-- Digits, with a point among them or not. -/
structure IsPositional (chars : List Char) : Prop where
  begins : ∃ c rest, chars = c :: rest ∧ c.isDigit = true
  chars : ∀ c ∈ chars, c.isDigit = true ∨ c = '.'

lemma isPositional_whole (hne : digits ≠ []) (h : ∀ c ∈ digits, c.isDigit = true) :
    IsPositional digits := by
  obtain ⟨c, rest, rfl⟩ := List.exists_cons_of_ne_nil hne
  exact ⟨⟨c, rest, rfl, h c (List.mem_cons_self ..)⟩, fun c hc => .inl (h c hc)⟩

lemma isPositional_decimal (hne : whole ≠ []) (hwhole : ∀ c ∈ whole, c.isDigit = true)
    (hfraction : ∀ c ∈ fraction, c.isDigit = true) : IsPositional (whole ++ '.' :: fraction) := by
  obtain ⟨c, rest, rfl⟩ := List.exists_cons_of_ne_nil hne
  refine ⟨⟨c, _, rfl, hwhole c (List.mem_cons_self ..)⟩, fun d hd => ?_⟩
  rcases List.mem_append.mp hd with hd | hd
  · exact .inl (hwhole d hd)
  · rcases List.mem_cons.mp hd with rfl | hd
    · exact .inr rfl
    · exact .inl (hfraction d hd)

end Positional

namespace Numeral

lemma isDigit_toDigits (n : Nat) : ∀ c ∈ Nat.toDigits 10 n, c.isDigit = true :=
  fun _ hc => Nat.isDigit_of_mem_toDigits (by decide) (by decide) hc

/-- Zeros in front of the digits, so that there is one at least before the point. -/
def padded (n : Numeral) : List Char :=
  List.replicate (n.places - n.zeros + 1 - (Nat.toDigits 10 n.digits).length) '0' ++
    Nat.toDigits 10 n.digits

lemma isDigit_padded (n : Numeral) : ∀ c ∈ n.padded, c.isDigit = true := by
  intro c hc
  rcases List.mem_append.mp hc with hc | hc
  · rw [List.eq_of_mem_replicate hc]
    rfl
  · exact isDigit_toDigits _ c hc

lemma digitsValue_padded (n : Numeral) : digitsValue n.padded = n.digits := by
  rw [digitsValue_eq, padded, Nat.ofDigitChars_append, Nat.ofDigitChars_replicate_zero, Nat.mul_zero,
    Nat.ofDigitChars_ten_toDigits]

lemma length_padded (n : Numeral) : n.places - n.zeros < n.padded.length := by
  rw [padded, List.length_append, List.length_replicate]
  omega

lemma chars_eq (n : Numeral) : n.chars =
    if n.places ≤ n.zeros then Nat.toDigits 10 n.digits ++ List.replicate (n.zeros - n.places) '0'
    else n.padded.take (n.padded.length - (n.places - n.zeros)) ++
      '.' :: n.padded.drop (n.padded.length - (n.places - n.zeros)) := rfl

lemma isPositional_chars (n : Numeral) : IsPositional n.chars := by
  have hpadded := n.isDigit_padded
  have hlength := n.length_padded
  rw [chars_eq]
  split
  · refine isPositional_whole (by simp) fun c hc => ?_
    rcases List.mem_append.mp hc with hc | hc
    · exact isDigit_toDigits _ c hc
    · rw [List.eq_of_mem_replicate hc]
      rfl
  · refine isPositional_decimal ?_ (fun c hc => hpadded c (List.mem_of_mem_take hc))
      fun c hc => hpadded c (List.mem_of_mem_drop hc)
    exact List.ne_nil_of_length_pos (by rw [List.length_take]; omega)

lemma denotes_chars (n : Numeral) : Denotes n.chars (n.digits * 10 ^ n.zeros) n.places := by
  have hpadded := n.isDigit_padded
  have hlength := n.length_padded
  rw [chars_eq]
  split
  · rename_i hle
    have hdigits : ∀ c ∈ Nat.toDigits 10 n.digits ++ List.replicate (n.zeros - n.places) '0',
        c.isDigit = true := by
      intro c hc
      rcases List.mem_append.mp hc with hc | hc
      · exact isDigit_toDigits _ c hc
      · rw [List.eq_of_mem_replicate hc]
        rfl
    rw [denotes_whole hdigits, digitsValue_eq, Nat.ofDigitChars_append,
      Nat.ofDigitChars_replicate_zero, Nat.ofDigitChars_ten_toDigits, Nat.mul_comm (10 ^ _),
      Nat.mul_assoc, ← pow_add, Nat.sub_add_cancel hle]
  · rename_i hlt
    rw [denotes_decimal (fun c hc => hpadded c (List.mem_of_mem_take hc))
      (fun c hc => hpadded c (List.mem_of_mem_drop hc)), List.take_append_drop, digitsValue_padded,
      List.length_drop, Nat.sub_sub_self hlength.le, Nat.mul_assoc, ← pow_add,
      Nat.add_sub_cancel' (Nat.le_of_not_le hlt)]

end Numeral

namespace Fields

variable (bits : UInt64)

lemma exponent_ofBits : (ofBits bits).exponent = bits.toNat / 2 ^ 52 % 2 ^ 11 := by
  simp [ofBits, Nat.shiftRight_eq_div_pow, Nat.and_two_pow_sub_one_eq_mod _ 11]

lemma fraction_ofBits : (ofBits bits).fraction = bits.toNat % 2 ^ 52 := by
  simp [ofBits, Nat.and_two_pow_sub_one_eq_mod _ 52]

lemma negative_ofBits : (ofBits bits).negative = decide (bits.toNat / 2 ^ 63 = 1) := by
  rw [Bool.eq_iff_iff]
  simp [ofBits, ← UInt64.toNat_inj, Nat.shiftRight_eq_div_pow]

variable {bits}

lemma ofBits_injective {bits' : UInt64} (h : ofBits bits = ofBits bits') : bits = bits' := by
  have hexponent := congrArg exponent h
  have hfraction := congrArg fraction h
  have hnegative := congrArg negative h
  rw [exponent_ofBits, exponent_ofBits] at hexponent
  rw [fraction_ofBits, fraction_ofBits] at hfraction
  rw [negative_ofBits, negative_ofBits, decide_eq_decide] at hnegative
  have hlt := bits.toNat_lt
  have hlt' := bits'.toNat_lt
  exact UInt64.toNat_inj.mp (by omega)

/-- The characters of a finite magnitude stand for a number that rounds to it. -/
lemma admits_magnitudeChars (spelling : Spelling) {x : Fields} (h : x.exponent ≠ 0x7FF) :
    IsPositional (x.magnitudeChars spelling) ∧
      ∃ n, Denotes (x.magnitudeChars spelling) n (Magnitude.ofFields x.exponent x.fraction).places ∧
        (Magnitude.ofFields x.exponent x.fraction).admits n = true := by
  have hunit := Magnitude.unit_pos x.exponent x.fraction
  have hmantissa : x.exponent = 0 ∧ x.fraction = 0 →
      (Magnitude.ofFields x.exponent x.fraction).mantissa = 0 := fun hzero =>
    (if_pos hzero.1).trans hzero.2
  rw [magnitudeChars, if_neg h]
  generalize Magnitude.ofFields x.exponent x.fraction = m at hunit hmantissa ⊢
  split
  · rename_i hzero
    have hdigit : ∀ c ∈ ['0'], c.isDigit = true := List.forall_mem_singleton.mpr rfl
    refine ⟨isPositional_whole (List.cons_ne_nil _ _) hdigit, 0, ?_, ?_⟩
    · rw [denotes_whole hdigit]
      exact Nat.zero_mul _
    · have hscaled : m.scaled = 0 := by
        rw [Magnitude.scaled, hmantissa hzero, Nat.zero_mul]
      rw [← hscaled]
      exact Magnitude.admits_scaled hunit
  · obtain ⟨hplaces, hadmits⟩ := Magnitude.admits_numeralFrom hunit (Nat.toDigits 10 m.scaled).length
    have hdenotes := m.numeral.denotes_chars
    rw [Magnitude.numeral, hplaces] at hdenotes
    exact ⟨m.numeral.isPositional_chars, _, hdenotes, hadmits⟩

lemma chars_of_ne {x : Fields} (spelling : Spelling) (h : x.exponent ≠ 0x7FF) :
    x.chars spelling = (if x.negative then ['-'] else []) ++ x.magnitudeChars spelling :=
  if_neg fun hnan => h hnan.1

lemma ne_minus_of_isDigit {c : Char} (h : c.isDigit = true) : c ≠ '-' := by
  rintro rfl
  exact absurd h (by decide)

lemma chars_injective {x y : Fields} {spelling : Spelling} (hx : x.exponent ≠ 0x7FF)
    (hy : y.exponent ≠ 0x7FF) (hfx : x.fraction < 2 ^ 52) (hfy : y.fraction < 2 ^ 52)
    (h : x.chars spelling = y.chars spelling) : x = y := by
  obtain ⟨⟨⟨c, rest, hbegins, hc⟩, -⟩, n, hdenotes, hadmits⟩ := admits_magnitudeChars spelling hx
  obtain ⟨⟨⟨d, rest', hbegins', hd⟩, -⟩, n', hdenotes', hadmits'⟩ := admits_magnitudeChars spelling hy
  have hsigns : x.negative = y.negative ∧ x.magnitudeChars spelling = y.magnitudeChars spelling := by
    rw [chars_of_ne spelling hx, chars_of_ne spelling hy] at h
    cases hxs : x.negative <;> cases hys : y.negative <;> simp [hxs, hys] at h
    · exact ⟨rfl, h⟩
    · rw [hbegins] at h
      exact absurd (List.cons.inj h).1 (ne_minus_of_isDigit hc)
    · rw [hbegins'] at h
      exact absurd (List.cons.inj h).1.symm (ne_minus_of_isDigit hd)
    · exact ⟨rfl, h⟩
  rw [← hsigns.2] at hdenotes'
  obtain ⟨hexponent, hfraction⟩ :=
    Magnitude.fields_eq_of_admits hfx hfy hadmits hadmits' (hdenotes.unique hdenotes')
  obtain ⟨negative, exponent, fraction⟩ := x
  obtain ⟨negative', exponent', fraction'⟩ := y
  simp only at hsigns hexponent hfraction
  rw [hsigns.1, hexponent, hfraction]

end Fields

lemma eq_of_toBits_eq {x y : Float} (h : x.toBits = y.toBits) : x = y := by
  obtain ⟨⟨bits, _⟩⟩ := x
  obtain ⟨⟨bits', _⟩⟩ := y
  obtain rfl : bits = bits' := h
  rfl

open Float.Model in
lemma exponent_ne_of_isFinite {x : Float} (h : x.isFinite = true) :
    (Fields.ofBits x.toBits).exponent ≠ 0x7FF := by
  intro hexponent
  rw [Fields.exponent_ofBits] at hexponent
  have hall : @UnpackedFloat.unpackExponent .binary64 x.toBits.toBitVec = -1#_ := by
    refine BitVec.eq_of_toNat_eq ?_
    simpa [UnpackedFloat.unpackExponent, Nat.shiftRight_eq_div_pow] using hexponent
  change (UnpackedFloat.unpack .binary64 x.toBits.toBitVec).isFinite = true at h
  rw [UnpackedFloat.unpack, if_pos hall] at h
  split at h <;> simp [UnpackedFloat.isFinite] at h

/-- Different finite numbers have different texts. -/
lemma text_injective {spelling : Spelling} {x y : Float} (hx : x.isFinite = true)
    (hy : y.isFinite = true) (h : text spelling x = text spelling y) : x = y := by
  have hchars := congrArg String.toList h
  simp only [text, String.toList_ofList] at hchars
  have hfraction (bits : UInt64) : (Fields.ofBits bits).fraction < 2 ^ 52 := by
    rw [Fields.fraction_ofBits]
    exact Nat.mod_lt _ (Nat.two_pow_pos 52)
  exact eq_of_toBits_eq (Fields.ofBits_injective (Fields.chars_injective (exponent_ne_of_isFinite hx)
    (exponent_ne_of_isFinite hy) (hfraction _) (hfraction _) hchars))

lemma text_begins (spelling : Spelling) {x : Float} (h : x.isFinite = true) :
    ∃ c rest, (text spelling x).toList = c :: rest ∧ (c.isDigit = true ∨ c = '-') ∧
      ∀ d ∈ c :: rest, d.isDigit = true ∨ d = '.' ∨ d = '-' := by
  obtain ⟨⟨⟨c, rest, hbegins, hc⟩, hchars⟩, -⟩ :=
    Fields.admits_magnitudeChars spelling (exponent_ne_of_isFinite h)
  rw [hbegins] at hchars
  have hall : ∀ d ∈ c :: rest, d.isDigit = true ∨ d = '.' ∨ d = '-' := fun d hd =>
    (hchars d hd).elim .inl fun hpoint => .inr (.inl hpoint)
  rw [text, String.toList_ofList, Fields.chars_of_ne spelling (exponent_ne_of_isFinite h), hbegins]
  cases (Fields.ofBits x.toBits).negative
  · exact ⟨c, rest, rfl, .inl hc, hall⟩
  · refine ⟨'-', c :: rest, rfl, .inr rfl, List.forall_mem_cons.mpr ⟨.inr (.inr rfl), hall⟩⟩

end Lox.Decimal
