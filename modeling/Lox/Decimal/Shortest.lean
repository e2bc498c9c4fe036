/-!
The shortest decimal numeral that reads back as a given binary number.

A binary fraction is a decimal fraction as well, so a magnitude is held as an exact natural number
of units in its last decimal place. The numeral chosen is the multiple of the largest power of ten
that still rounds to the magnitude; where two multiples do, it is the nearer one, and the larger of
two equally near ones.
-/

namespace Lox.Decimal

/-- The positive number `mantissa * unit / 10 ^ places`; one step of its mantissa is a step to the
next number that can be represented. -/
structure Magnitude where
  mantissa : Nat
  unit : Nat
  places : Nat
deriving DecidableEq, Repr

/-- The decimal numeral `digits * 10 ^ zeros / 10 ^ places`. -/
structure Numeral where
  digits : Nat
  zeros : Nat
  places : Nat
deriving DecidableEq, Repr

namespace Magnitude

/-- The magnitude of a finite binary64 number with the given exponent and fraction fields. -/
def ofFields (exponent fraction : Nat) : Magnitude :=
  let weight := max exponent 1
  { mantissa := if exponent = 0 then fraction else Nat.pow 2 52 + fraction
    unit := Nat.pow 2 (weight - 1075) * Nat.pow 5 (1075 - weight)
    places := 1075 - weight }

def scaled (x : Magnitude) : Nat :=
  x.mantissa * x.unit

/-- Whether the numbers just below are spaced more finely than those just above. -/
def isNarrowBelow (x : Magnitude) : Bool :=
  x.mantissa == Nat.pow 2 52

/-- Four times the lower end of the interval that rounds to the magnitude. -/
def low (x : Magnitude) : Nat :=
  (4 * x.mantissa - if x.isNarrowBelow then 1 else 2) * x.unit

/-- Four times the upper end of the interval that rounds to the magnitude. -/
def high (x : Magnitude) : Nat :=
  (4 * x.mantissa + 2) * x.unit

/-- Whether a number of last places rounds to the magnitude: an end of the interval does just when
the mantissa is even. -/
def admits (x : Magnitude) (n : Nat) : Bool :=
  if x.mantissa % 2 = 0 then x.low ≤ 4 * n && 4 * n ≤ x.high
  else x.low < 4 * n && 4 * n < x.high

/-- The multiple of `step` nearest to the magnitude among those that round to it. -/
def multiple? (x : Magnitude) (step : Nat) : Option Nat :=
  let below := x.scaled / step
  let above := below + 1
  match x.admits (below * step), x.admits (above * step) with
  | true, true =>
    if x.scaled - below * step < above * step - x.scaled then some below else some above
  | true, false => some below
  | false, true => some above
  | false, false => none

/-- The multiple of the largest power of ten, `10 ^ zeros` at most, that rounds to the magnitude. -/
def numeralFrom (x : Magnitude) : (zeros : Nat) → Numeral
  | 0 => { digits := x.scaled, zeros := 0, places := x.places }
  | zeros + 1 =>
    match x.multiple? (Nat.pow 10 (zeros + 1)) with
    | some digits => { digits, zeros := zeros + 1, places := x.places }
    | none => x.numeralFrom zeros

/-- The shortest numeral that reads back as the magnitude. -/
def numeral (x : Magnitude) : Numeral :=
  x.numeralFrom (Nat.toDigits 10 x.scaled).length

end Magnitude

end Lox.Decimal
