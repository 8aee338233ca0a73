import Stepwise.Number.Binary64

/-!
# The shortest decimal that reads back

A binary64 number `m * 2 ^ e` is the rounding of every real in an interval around it; the ends
belong to the interval when `m` is even, because ties are rounded to even. Among the decimals in
that interval the ones with the fewest digits are wanted, and of those the nearest to the number.

For one digit, two digits, and so on up to seventeen, the number's two neighbours on the grid of
decimals with that many digits are tested. Since the number itself lies in its interval, any point
of the grid in the interval brings one of these two neighbours with it. All comparisons are
between products of whole numbers.
-/

namespace Stepwise.Shortest

/-- The number `digits * 10 ^ exponent`. -/
structure Decimal where
  digits : Nat
  exponent : Int
deriving DecidableEq

/-- A number `num / den` and the interval of the reals that are rounded to it. -/
structure Target where
  num : Nat
  low : Nat
  high : Nat
  den : Nat
  closed : Bool

/--
The target of `m * 2 ^ e`, counted in quarters of the unit `2 ^ e`. Halfway to the
neighbours is two quarters away on both sides, except below a power of two, where the next
number is half as far.
-/
def Target.ofBinary (m : Nat) (e : Int) : Target :=
  let up := 1 <<< (e - 2).toNat
  let below := if m = Binary64.hiddenBit ∧ Binary64.leastExponent < e then 1 else 2
  { num := 4 * m * up, low := (4 * m - below) * up, high := (4 * m + 2) * up,
    den := 1 <<< (2 - e).toNat, closed := m % 2 == 0 }

/-- The grid `10 ^ exponent * Nat` as a fraction: a multiple `k` stands for `k * up / down`. -/
structure Grid where
  up : Nat
  down : Nat

/-- The grid of the multiples of ten to this power. -/
def Grid.ofExponent (exponent : Int) : Grid :=
  ⟨Nat.pow 10 exponent.toNat, Nat.pow 10 (-exponent).toNat⟩

namespace Target

variable (t : Target)

/-- Whether `k` steps of the grid lie in the interval. -/
def admits (g : Grid) (k : Nat) : Bool :=
  let point := k * g.up * t.den
  if t.closed then t.low * g.down ≤ point && point ≤ t.high * g.down
  else t.low * g.down < point && point < t.high * g.down

/-- The multiple of the grid that is at or below the number. -/
def floorOn (g : Grid) : Nat := t.num * g.down / (t.den * g.up)

/-- The admitted one of the number's two neighbours on the grid; the nearer of two, and of two
equally near the even one. -/
def nearest? (g : Grid) : Option Nat :=
  let k := t.floorOn g
  match t.admits g k, t.admits g (k + 1) with
  | false, false => none
  | true, false => some k
  | false, true => some (k + 1)
  | true, true =>
    let twice := 2 * t.num * g.down
    let middle := (2 * k + 1) * g.up * t.den
    if twice < middle then some k
    else if middle < twice then some (k + 1)
    else if k % 2 = 0 then some k
    else some (k + 1)

/-- The least power of ten above the number, from an estimate `guess` that is one
or two too low. -/
def scale (guess : Int) : Int :=
  let g := Grid.ofExponent (guess + 1)
  if t.num * g.down < t.den * g.up then guess + 1 else guess + 2

/-- Tries grids that give the number `count` digits, then one more, while `tries` lasts. Seventeen
digits always suffice. -/
def search (scale : Int) (count : Nat) : Nat → Decimal
  | 0 => ⟨t.floorOn (.ofExponent (scale - count)), scale - count⟩
  | tries + 1 =>
    match t.nearest? (.ofExponent (scale - count)) with
    | some k => ⟨k, scale - count⟩
    | none => search scale (count + 1) tries

end Target

/-- The shortest decimal that reads back as `m * 2 ^ e`, nearest to it; `m` is not zero. -/
def ofBinary (m : Nat) (e : Int) : Decimal :=
  let t := Target.ofBinary m e
  let bits : Int := m.log2 + e
  t.search (t.scale (bits * 30103 / 100000)) 1 17

end Stepwise.Shortest
