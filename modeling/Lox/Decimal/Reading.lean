/-!
Numbers from text: digits, with or without a point, are read as the nearest binary64 number.
-/

namespace Lox.Decimal

def digitsValue (digits : List Char) : Nat :=
  digits.foldl (fun value c => 10 * value + (c.toNat - '0'.toNat)) 0

/-- The binary64 number nearest to the digits `whole.fraction`; a tie goes to the even mantissa,
and infinity is the nearest beyond the largest number. -/
def nearest (whole fraction : List Char) : Float :=
  Float.ofScientific (digitsValue (whole ++ fraction)) true fraction.length

end Lox.Decimal
