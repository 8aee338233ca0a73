/-!
# Decimal text of integers of any size

Numbers are written and read by halves. A number too long for one piece is cut at a power of ten
near the middle of its digits, the halves are written apart, and the low half is padded with zeros
to the full width of the cut; reading splits a long text the same way. Each piece has at most about
a thousand digits, so the cost of a long number is that of a few large products and quotients.

The cut is taken from the binary logarithm: ten bits carry a little more than three digits, so
`3 * (log₂ n / 20)` digits are close to half of them and never more than there are
(`cut_le`).
-/

namespace Stepwise.Text.Decimal

/-- Numbers below two to this power are written in one piece. -/
def pieceBits : Nat := 3320

/-- Texts of at most this many digits are read in one piece. -/
def pieceDigits : Nat := 1000

/-- How many of the low digits of `n` are cut off when it is written by halves. -/
def halfDigits (n : Nat) : Nat := 3 * (n.log2 / 20)

/-- The power of ten at which `n` is cut. -/
def cut (n : Nat) : Nat := Nat.pow 10 (halfDigits n)

theorem cut_le {n : Nat} (h : n ≠ 0) : cut n ≤ n :=
  calc cut n = 1000 ^ (n.log2 / 20) := by rw [cut, halfDigits, Nat.pow_eq, Nat.pow_mul]
    _ ≤ 1024 ^ (n.log2 / 20) := Nat.pow_le_pow_left (by omega) _
    _ = 2 ^ (10 * (n.log2 / 20)) := by rw [Nat.pow_mul]
    _ ≤ 2 ^ n.log2 := Nat.pow_le_pow_right (by omega) (by omega)
    _ ≤ n := Nat.log2_self_le h

theorem one_lt_cut {n : Nat} (h : pieceBits ≤ n.log2) : 1 < cut n :=
  Nat.one_lt_pow (by simp only [halfDigits, pieceBits] at *; omega) (by omega)

/-- The digits `cs` with zeros in front, so that there are at least `width`. -/
def padZeros (width : Nat) (cs : List Char) : List Char :=
  List.replicate (width - cs.length) '0' ++ cs

/-- The decimal digits of `n`, most significant first, without leading zeros. -/
def digits (n : Nat) : List Char :=
  if n.log2 < pieceBits then Nat.toDigits 10 n
  else
    digits (n / cut n) ++ padZeros (halfDigits n) (digits (n % cut n))
termination_by n
decreasing_by
  · have hn : n ≠ 0 := by rintro rfl; simp_all [pieceBits]
    exact Nat.div_lt_self (Nat.pos_of_ne_zero hn) (one_lt_cut (by omega))
  · have hn : n ≠ 0 := by rintro rfl; simp_all [pieceBits]
    exact Nat.lt_of_lt_of_le (Nat.mod_lt _ (Nat.zero_lt_of_lt (one_lt_cut (by omega)))) (cut_le hn)

/-- The number that a text of decimal digits denotes; no digits denote zero. -/
def value (cs : List Char) : Nat :=
  if cs.length ≤ pieceDigits then Nat.ofDigitChars 10 cs 0
  else
    value (cs.take (cs.length - cs.length / 2)) * Nat.pow 10 (cs.length / 2) +
      value (cs.drop (cs.length - cs.length / 2))
termination_by cs.length
decreasing_by
  all_goals simp only [pieceDigits] at *; simp; omega

/-- Decimal text of a natural number. -/
def ofNat (n : Nat) : String := String.ofList (digits n)

/-- Decimal text of an integer: a minus sign in front of a negative one. -/
def ofInt (n : Int) : String := if n < 0 then "-" ++ ofNat n.natAbs else ofNat n.natAbs

/-- The number that a text of decimal digits denotes. -/
def toNat (text : String) : Nat := value text.toList

end Stepwise.Text.Decimal
