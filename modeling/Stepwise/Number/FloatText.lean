import Stepwise.Number.Binary64
import Stepwise.Number.Shortest
import Stepwise.Text.Decimal

/-!
# Text of floats

A float without a fraction is written as the whole number it is, in full. Any other finite float is
written with the fewest digits that read back, in positional notation unless it is very small.
-/

namespace Stepwise

/-- The choices that fix how a number with a fraction is laid out. -/
structure NumberLayout where
  /-- The least decimal exponent that is still written positionally. -/
  leastPositional : Int
  /-- What stands between the digits and the exponent. -/
  mark : String
  /-- The least number of digits of the exponent. -/
  exponentWidth : Nat

namespace NumberLayout

open Text

/-- Digits with a decimal point after the first `whole` of them, zeros filled in in front. -/
def positional (cs : List Char) (whole : Int) : String :=
  if whole ≤ 0 then "0." ++ String.ofList (List.replicate (-whole).toNat '0' ++ cs)
  else
    String.ofList (cs.take whole.toNat) ++
      (if cs.length ≤ whole.toNat then String.ofList (List.replicate (whole.toNat - cs.length) '0')
       else "." ++ String.ofList (cs.drop whole.toNat))

/-- Digits with a point after the first one, and a signed exponent. -/
def scientific (layout : NumberLayout) (cs : List Char) (exponent : Int) : String :=
  String.ofList (cs.take 1) ++
    (if cs.length ≤ 1 then "" else "." ++ String.ofList (cs.drop 1)) ++
    layout.mark ++ (if exponent < 0 then "-" else "+") ++
    String.ofList (Decimal.padZeros layout.exponentWidth (Decimal.digits exponent.natAbs))

/-- The digits of `n` without the zeros at its end. -/
def significant (n : Nat) : List Char :=
  ((Decimal.digits n).reverse.dropWhile (· == '0')).reverse

/-- Text of a positive decimal. -/
def write (layout : NumberLayout) (d : Shortest.Decimal) : String :=
  let whole : Int := (Decimal.digits d.digits).length + d.exponent
  if layout.leastPositional ≤ whole - 1 then positional (significant d.digits) whole
  else layout.scientific (significant d.digits) (whole - 1)

end NumberLayout

namespace FloatText

/-- Numbers with a fraction are positional down to a ten-thousandth; below, the exponent has a sign
and two digits or more. -/
def layout : NumberLayout := ⟨-4, "e", 2⟩

/-- The text of a float. -/
def write (x : Float) : String :=
  match Binary64.ofFloat x with
  | .nan => "NaN"
  | .infinite negative => if negative then "-inf" else "inf"
  | .finite negative m e =>
    (if negative then "-" else "") ++
      match Binary64.wholePart? m e with
      | some n => Text.Decimal.ofNat n
      | none => layout.write (Shortest.ofBinary m e)

end FloatText

end Stepwise
