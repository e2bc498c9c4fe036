import Lox.Decimal.Shortest

/-!
Numbers as text: the shortest numeral in positional notation, however long it gets, with no point
after a whole number.
-/

namespace Lox.Decimal

/-- The digits of a numeral, with a point only before a fraction. -/
def Numeral.chars (n : Numeral) : List Char :=
  let digits := Nat.toDigits 10 n.digits
  if n.places ≤ n.zeros then digits ++ List.replicate (n.zeros - n.places) '0'
  else
    let fraction := n.places - n.zeros
    let padded := List.replicate (fraction + 1 - digits.length) '0' ++ digits
    padded.take (padded.length - fraction) ++ '.' :: padded.drop (padded.length - fraction)

structure Spelling where
  notANumber : String
  infinity : String
deriving DecidableEq, Repr

structure Fields where
  negative : Bool
  exponent : Nat
  fraction : Nat
deriving DecidableEq, Repr

def Fields.ofBits (bits : UInt64) : Fields :=
  { negative := bits >>> 63 == 1
    exponent := ((bits >>> 52) &&& 0x7FF).toNat
    fraction := (bits &&& 0xFFFFFFFFFFFFF).toNat }

def Fields.magnitudeChars (spelling : Spelling) (x : Fields) : List Char :=
  if x.exponent = 0x7FF then spelling.infinity.toList
  else if x.exponent = 0 ∧ x.fraction = 0 then ['0']
  else (Magnitude.ofFields x.exponent x.fraction).numeral.chars

/-- The characters of any number; a zero keeps its sign, the number that is none has no sign. -/
def Fields.chars (spelling : Spelling) (x : Fields) : List Char :=
  if x.exponent = 0x7FF ∧ x.fraction ≠ 0 then spelling.notANumber.toList
  else (if x.negative then ['-'] else []) ++ x.magnitudeChars spelling

def text (spelling : Spelling) (x : Float) : String :=
  String.ofList ((Fields.ofBits x.toBits).chars spelling)

end Lox.Decimal
