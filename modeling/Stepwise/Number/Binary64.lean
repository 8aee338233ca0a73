/-!
# What the bits of a binary64 number say

A finite number is `± mantissa * 2 ^ exponent` with a mantissa below `2 ^ 53`. Everything
that needs an exact answer about a float (its text, its remainder) is computed on this
form in whole numbers.
-/

namespace Stepwise

/-- A binary64 number taken apart. -/
inductive Binary64 where
  | nan
  | infinite (negative : Bool)
  | finite (negative : Bool) (mantissa : Nat) (exponent : Int)
deriving DecidableEq

namespace Binary64

/-- The exponent of the numbers nearest to zero. -/
def leastExponent : Int := -1074

/-- The bit of the mantissa that every normal number has and that is not stored. -/
def hiddenBit : Nat := 1 <<< 52

/-- Takes a float apart; the hidden bit of a normal number is put back into its mantissa. -/
def ofFloat (x : Float) : Binary64 :=
  let bits := x.toBits.toNat
  let negative := bits.testBit 63
  let field : Nat := (bits >>> 52) % 2048
  let fraction := bits % hiddenBit
  if field = 2047 then
    if fraction = 0 then .infinite negative else .nan
  else if field = 0 then .finite negative fraction leastExponent
  else .finite negative (fraction + hiddenBit) (field - 1075)

/--
The float `± mantissa * 2 ^ exponent`, for a mantissa below `2 ^ 53` and an exponent that is not
below the least one and not too large for the mantissa. The mantissa is moved up as far as there is
room, so that every number has one form.
-/
def pack (negative : Bool) (mantissa : Nat) (exponent : Int) : Float :=
  let shift := min (52 - mantissa.log2) (exponent - leastExponent).toNat
  let m := mantissa <<< shift
  let field := if m < hiddenBit then 0 else (exponent - shift + 1075).toNat
  let sign := if negative then 1 <<< 63 else 0
  Float.ofBits (UInt64.ofNat (sign + field <<< 52 + m % hiddenBit))

/-- The float that was taken apart. -/
def toFloat : Binary64 → Float
  | .nan => Float.ofBits 0x7ff8000000000000
  | .infinite negative =>
    Float.ofBits (if negative then 0xfff0000000000000 else 0x7ff0000000000000)
  | .finite negative mantissa exponent => pack negative mantissa exponent

/-- The whole number that a finite number is, without its sign; `none` if it has a fraction. -/
def wholePart? (mantissa : Nat) (exponent : Int) : Option Nat :=
  if 0 ≤ exponent then some (mantissa <<< exponent.toNat)
  else
    let unit := 1 <<< (-exponent).toNat
    if mantissa % unit = 0 then some (mantissa / unit) else none

/--
The remainder of a division that is truncated toward zero; it has the dividend's sign and is exact,
because no remainder needs a finer unit than the finer of the two numbers. An infinite dividend has
no remainder, and an infinite divisor leaves the dividend as it is.
-/
def remainder : Binary64 → Binary64 → Binary64
  | .nan, _ | _, .nan | .infinite _, _ => .nan
  | x@(.finite ..), .infinite _ => x
  | .finite negative m e, .finite _ n f =>
    let unit := min e f
    .finite negative (m <<< (e - unit).toNat % n <<< (f - unit).toNat) unit

end Binary64

end Stepwise
