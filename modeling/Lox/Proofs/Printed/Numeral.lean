import Lox.Decimal.Positional
import Lox.Decimal.Reading
import Mathlib

/-! Different finite numbers have different texts. The numeral of a magnitude is one of those that
round to it, and no numeral rounds to two magnitudes. -/

namespace Lox.Decimal

namespace Magnitude

variable {x : Magnitude} {n step digits : Nat}

lemma admits_iff : x.admits n = true ↔ (x.low ≤ 4 * n ∧ 4 * n ≤ x.high) ∧
    (x.mantissa % 2 = 1 → x.low < 4 * n ∧ 4 * n < x.high) := by
  unfold admits
  split <;> simp only [Bool.and_eq_true, decide_eq_true_eq]
  · rename_i heven
    exact ⟨fun h => ⟨h, fun hodd => by omega⟩, fun h => h.1⟩
  · rename_i hodd
    exact ⟨fun h => ⟨⟨h.1.le, h.2.le⟩, fun _ => h⟩, fun h => h.2 (by omega)⟩

lemma admits_scaled (hunit : 0 < x.unit) : x.admits x.scaled = true := by
  have hlow (δ : Nat) : (4 * x.mantissa - δ) * x.unit ≤ 4 * (x.mantissa * x.unit) := by
    rw [← Nat.mul_assoc]
    exact Nat.mul_le_mul_right _ (Nat.sub_le _ _)
  have hlow' (δ : Nat) (hδ : 0 < δ) (hpos : 0 < x.mantissa) :
      (4 * x.mantissa - δ) * x.unit < 4 * (x.mantissa * x.unit) := by
    rw [← Nat.mul_assoc]
    exact Nat.mul_lt_mul_of_pos_right (by omega) hunit
  have hhigh : 4 * (x.mantissa * x.unit) < (4 * x.mantissa + 2) * x.unit := by
    rw [← Nat.mul_assoc]
    exact Nat.mul_lt_mul_of_pos_right (by omega) hunit
  refine admits_iff.mpr ⟨⟨hlow _, hhigh.le⟩, fun hodd => ⟨hlow' _ ?_ (by omega), hhigh⟩⟩
  split <;> decide

lemma admits_of_multiple? (h : x.multiple? step = some digits) : x.admits (digits * step) = true := by
  unfold multiple? at h
  dsimp only at h
  split at h
  · rename_i hbelow habove
    split at h
    · exact Option.some.inj h ▸ hbelow
    · exact Option.some.inj h ▸ habove
  · rename_i hbelow _
    exact Option.some.inj h ▸ hbelow
  · rename_i _ habove
    exact Option.some.inj h ▸ habove
  · cases h

lemma admits_numeralFrom (hunit : 0 < x.unit) (zeros : Nat) :
    (x.numeralFrom zeros).places = x.places ∧
      x.admits ((x.numeralFrom zeros).digits * 10 ^ (x.numeralFrom zeros).zeros) = true := by
  induction zeros with
  | zero => simpa [numeralFrom] using admits_scaled hunit
  | succ zeros ih =>
    rw [numeralFrom]
    split
    · rename_i hmultiple
      exact ⟨rfl, admits_of_multiple? hmultiple⟩
    · exact ih

def bias : Nat :=
  1075

/-- The step of a magnitude is `1 / grain` times a power of two. -/
def grain : Nat :=
  2 ^ bias

lemma grain_pos : 0 < grain :=
  Nat.two_pow_pos bias

lemma two_pow_mul_ten_pow (weight bias : Nat) :
    2 ^ (weight - bias) * 5 ^ (bias - weight) * 2 ^ bias = 2 ^ weight * 10 ^ (bias - weight) := by
  have hten (k : Nat) : 10 ^ k = 2 ^ k * 5 ^ k := Nat.mul_pow 2 5 k
  rcases Nat.le_total weight bias with hle | hle
  · rw [Nat.sub_eq_zero_of_le hle, pow_zero, Nat.one_mul, hten, ← Nat.mul_assoc, ← pow_add,
      Nat.add_sub_cancel' hle, Nat.mul_comm]
  · rw [Nat.sub_eq_zero_of_le hle, pow_zero, pow_zero, Nat.mul_one, Nat.mul_one, ← pow_add,
      Nat.sub_add_cancel hle]

lemma unit_ofFields (exponent fraction : Nat) :
    (ofFields exponent fraction).unit * grain =
      2 ^ max exponent 1 * 10 ^ (ofFields exponent fraction).places :=
  two_pow_mul_ten_pow (max exponent 1) bias

lemma unit_pos (exponent fraction : Nat) : 0 < (ofFields exponent fraction).unit := by
  have hpos : 0 < 2 ^ max exponent 1 * 10 ^ (ofFields exponent fraction).places :=
    Nat.mul_pos (Nat.two_pow_pos _) (Nat.pow_pos (by decide))
  rw [← unit_ofFields] at hpos
  exact Nat.pos_of_mul_pos_right hpos

section Overlap

variable {e e' f f' n n' : Nat}

/-- How much lower than four times a mantissa the interval begins that rounds to it. -/
def gap (mantissa : Nat) : Nat :=
  if mantissa = 2 ^ 52 then 1 else 2

lemma low_eq (x : Magnitude) : x.low = (4 * x.mantissa - gap x.mantissa) * x.unit := by
  simp only [low, gap, isNarrowBelow, Nat.pow_eq, beq_iff_eq]

/-- The interval that rounds to a magnitude, in powers of two. -/
lemma bounds_of_admits {x : Magnitude} (hx : x = ofFields e f) (h : x.admits n = true) :
    ((4 * x.mantissa - gap x.mantissa) * 2 ^ max e 1 * 10 ^ x.places ≤ 4 * n * grain ∧
        4 * n * grain ≤ (4 * x.mantissa + 2) * 2 ^ max e 1 * 10 ^ x.places) ∧
      (x.mantissa % 2 = 1 →
        (4 * x.mantissa - gap x.mantissa) * 2 ^ max e 1 * 10 ^ x.places < 4 * n * grain ∧
          4 * n * grain < (4 * x.mantissa + 2) * 2 ^ max e 1 * 10 ^ x.places) := by
  have hunit : x.unit * grain = 2 ^ max e 1 * 10 ^ x.places := hx ▸ unit_ofFields e f
  have hlow : (4 * x.mantissa - gap x.mantissa) * 2 ^ max e 1 * 10 ^ x.places = x.low * grain := by
    rw [low_eq, Nat.mul_assoc, ← hunit, Nat.mul_assoc]
  have hhigh : (4 * x.mantissa + 2) * 2 ^ max e 1 * 10 ^ x.places = x.high * grain := by
    rw [high, Nat.mul_assoc, ← hunit, Nat.mul_assoc]
  rw [hlow, hhigh]
  simp only [Nat.mul_le_mul_right_iff grain_pos,
    Nat.mul_lt_mul_right grain_pos]
  exact admits_iff.mp h

/-- Two magnitudes to which one number rounds: the interval of the one begins before that of the other
ends. -/
lemma overlap {x x' : Magnitude} (hx : x = ofFields e f) (hx' : x' = ofFields e' f')
    (h : x.admits n = true) (h' : x'.admits n' = true)
    (hsame : n * 10 ^ x'.places = n' * 10 ^ x.places) :
    (4 * x'.mantissa - gap x'.mantissa) * 2 ^ max e' 1 ≤ (4 * x.mantissa + 2) * 2 ^ max e 1 ∧
      (x.mantissa % 2 = 1 ∨ x'.mantissa % 2 = 1 →
        (4 * x'.mantissa - gap x'.mantissa) * 2 ^ max e' 1 < (4 * x.mantissa + 2) * 2 ^ max e 1) := by
  obtain ⟨⟨-, hhigh⟩, hodd⟩ := bounds_of_admits hx h
  obtain ⟨⟨hlow, -⟩, hodd'⟩ := bounds_of_admits hx' h'
  have hx10 : 0 < 10 ^ x.places := Nat.pow_pos (by decide)
  have hx10' : 0 < 10 ^ x'.places := Nat.pow_pos (by decide)
  have hmiddle : 4 * n * grain * 10 ^ x'.places = 4 * n' * grain * 10 ^ x.places := by
    generalize grain = g
    linear_combination 4 * g * hsame
  have hscale (a w : Nat) : a * w * 10 ^ x.places * 10 ^ x'.places =
      a * w * (10 ^ x.places * 10 ^ x'.places) := Nat.mul_assoc ..
  have hscale' (a w : Nat) : a * w * 10 ^ x'.places * 10 ^ x.places =
      a * w * (10 ^ x.places * 10 ^ x'.places) := by ring
  have hboth : 0 < 10 ^ x.places * 10 ^ x'.places := Nat.mul_pos hx10 hx10'
  have hhigh := Nat.mul_le_mul_right (10 ^ x'.places) hhigh
  have hlow := Nat.mul_le_mul_right (10 ^ x.places) hlow
  rw [hscale] at hhigh
  rw [hscale'] at hlow
  refine ⟨Nat.le_of_mul_le_mul_right (hlow.trans (hmiddle.ge.trans hhigh)) hboth, fun h => ?_⟩
  refine Nat.lt_of_mul_lt_mul_right (a := 10 ^ x.places * 10 ^ x'.places) ?_
  rcases h with h | h
  · have hhigh := Nat.mul_lt_mul_of_pos_right (hodd h).2 hx10'
    rw [hscale] at hhigh
    exact hlow.trans_lt (hmiddle.ge.trans_lt hhigh)
  · have hlow := Nat.mul_lt_mul_of_pos_right (hodd' h).1 hx10
    rw [hscale'] at hlow
    exact hlow.trans_le (hmiddle.ge.trans hhigh)

/-- Where the interval of a magnitude that is no finer begins before that of another one ends, it is no
coarser either, and its mantissa is no larger. -/
lemma le_of_overlap {m m' w w' : Nat} (hm : m < 2 ^ 53) (hm' : w < w' → 2 ^ 52 ≤ m') (hw : w ≤ w')
    (h : (4 * m' - gap m') * 2 ^ w' ≤ (4 * m + 2) * 2 ^ w ∧ (m % 2 = 1 ∨ m' % 2 = 1 →
      (4 * m' - gap m') * 2 ^ w' < (4 * m + 2) * 2 ^ w)) : w' = w ∧ m' ≤ m := by
  obtain ⟨s, rfl⟩ := Nat.exists_eq_add_of_le hw
  have hpos : 0 < 2 ^ w := Nat.two_pow_pos w
  rw [pow_add, Nat.mul_comm (2 ^ w), ← Nat.mul_assoc, Nat.mul_le_mul_right_iff hpos,
    Nat.mul_lt_mul_right hpos] at h
  unfold gap at h
  cases s with
  | zero =>
    rw [pow_zero, Nat.mul_one] at h
    refine ⟨rfl, ?_⟩
    split at h <;> omega
  | succ s =>
    -- The interval would begin two steps of the finer one and more above its largest mantissa.
    have hlarge := hm' (by omega)
    have htwo : 2 ≤ 2 ^ (s + 1) := by
      rw [pow_succ]
      exact Nat.le_mul_of_pos_left 2 (Nat.two_pow_pos s)
    exfalso
    have hle (a : Nat) : a * 2 ≤ a * 2 ^ (s + 1) := Nat.mul_le_mul_left a htwo
    split at h
    · have := hle (4 * m' - 1)
      omega
    · have := hle (4 * m' - 2)
      omega

lemma mantissa_ofFields_lt (hf : f < 2 ^ 52) : (ofFields e f).mantissa < 2 ^ 53 := by
  simp only [ofFields, Nat.pow_eq]
  split <;> omega

lemma le_mantissa_ofFields (he : 1 < max e 1) : 2 ^ 52 ≤ (ofFields e f).mantissa := by
  simp only [ofFields, Nat.pow_eq]
  split <;> omega

/-- No number rounds to two magnitudes. -/
lemma fields_eq_of_admits (hf : f < 2 ^ 52) (hf' : f' < 2 ^ 52) (h : (ofFields e f).admits n = true)
    (h' : (ofFields e' f').admits n' = true)
    (hsame : n * 10 ^ (ofFields e' f').places = n' * 10 ^ (ofFields e f).places) :
    e = e' ∧ f = f' := by
  have hleft := overlap rfl rfl h h' hsame
  have hright := overlap rfl rfl h' h hsame.symm
  have hboth : max e 1 = max e' 1 ∧ (ofFields e f).mantissa = (ofFields e' f').mantissa := by
    rcases Nat.le_total (max e 1) (max e' 1) with hle | hle
    · obtain ⟨hw, hm⟩ := le_of_overlap (mantissa_ofFields_lt hf)
        (fun _ => le_mantissa_ofFields (by omega)) hle hleft
      obtain ⟨-, hm'⟩ := le_of_overlap (mantissa_ofFields_lt hf') (fun _ => by omega) hw.le hright
      exact ⟨hw.symm, Nat.le_antisymm hm' hm⟩
    · obtain ⟨hw, hm⟩ := le_of_overlap (mantissa_ofFields_lt hf')
        (fun _ => le_mantissa_ofFields (by omega)) hle hright
      obtain ⟨-, hm'⟩ := le_of_overlap (mantissa_ofFields_lt hf) (fun _ => by omega) hw.le hleft
      exact ⟨hw, Nat.le_antisymm hm hm'⟩
  simp only [ofFields, Nat.pow_eq] at hboth
  split at hboth <;> split at hboth <;> omega

end Overlap

end Magnitude

end Lox.Decimal
