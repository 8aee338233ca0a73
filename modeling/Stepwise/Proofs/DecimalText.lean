import Mathlib
import Stepwise.Text.Decimal

/-!
# Writing numbers by halves

A long number is cut at a power of ten, and its halves are written apart. The digits are those of
the whole number all the same (`digits_eq`): the low half is padded to the width of the cut, so
the zeros that it has in front are not lost (`toDigits_mul_pow_add`, by induction on the width).
-/

namespace Stepwise.Text.Decimal

/-- One more digit makes a padded number one wider, whether or not it is zero in front of it. -/
theorem padZeros_toDigits_succ {width n d : Nat} (hwidth : 0 < width) (hd : d < 10) :
    padZeros (width + 1) (Nat.toDigits 10 (10 * n + d)) =
      padZeros width (Nat.toDigits 10 n) ++ Nat.toDigits 10 d := by
  have hlast : Nat.toDigits 10 d = [d.digitChar] := Nat.toDigits_of_lt_base hd
  rcases Nat.eq_zero_or_pos n with rfl | hn
  · -- zero is written with one digit on the right, and with none on the left
    obtain ⟨k, rfl⟩ : ∃ k, width = k + 1 := ⟨width - 1, by omega⟩
    rw [Nat.mul_zero, Nat.zero_add, hlast, Nat.toDigits_zero]
    simp only [padZeros, List.length_singleton, Nat.add_sub_cancel, List.replicate_succ']
  · have hmore : Nat.toDigits 10 (10 * n + d) = Nat.toDigits 10 n ++ [d.digitChar] := by
      rw [← Nat.toDigits_append_toDigits (by omega) hn hd, hlast]
    rw [hmore, hlast, padZeros, padZeros, List.length_append, List.length_singleton,
      Nat.add_sub_add_right, List.append_assoc]

/-- **A cut at a power of ten splits the digits.** -/
theorem toDigits_mul_pow_add {high low width : Nat} (hhigh : 0 < high) (hwidth : 0 < width)
    (hlow : low < 10 ^ width) :
    Nat.toDigits 10 (high * 10 ^ width + low) =
      Nat.toDigits 10 high ++ padZeros width (Nat.toDigits 10 low) := by
  induction width, hwidth using Nat.le_induction generalizing low with
  | base =>
      rw [pow_one] at hlow ⊢
      rw [Nat.mul_comm, ← Nat.toDigits_append_toDigits (by omega) hhigh hlow,
        Nat.toDigits_of_lt_base hlow]
      rfl
  | succ width hwidth ih =>
      have hsplit : low = 10 * (low / 10) + low % 10 := (Nat.div_add_mod low 10).symm
      have hfront : low / 10 < 10 ^ width := by
        rw [pow_succ] at hlow
        omega
      have hpos : 0 < high * 10 ^ width + low / 10 := by positivity
      have hwhole : high * 10 ^ (width + 1) + low =
          10 * (high * 10 ^ width + low / 10) + low % 10 := by
        rw [pow_succ, ← Nat.mul_assoc]
        omega
      have hlast : low % 10 < 10 := Nat.mod_lt _ (by omega)
      calc Nat.toDigits 10 (high * 10 ^ (width + 1) + low)
          = Nat.toDigits 10 (high * 10 ^ width + low / 10) ++ Nat.toDigits 10 (low % 10) := by
            rw [hwhole, Nat.toDigits_append_toDigits (by omega) hpos hlast]
        _ = Nat.toDigits 10 high ++ (padZeros width (Nat.toDigits 10 (low / 10)) ++
              Nat.toDigits 10 (low % 10)) := by rw [ih hfront, List.append_assoc]
        _ = Nat.toDigits 10 high ++ padZeros (width + 1) (Nat.toDigits 10 low) := by
            rw [← padZeros_toDigits_succ hwidth hlast, ← hsplit]

/-- **The digits of a number are its decimal digits**, in however many pieces it is written. -/
theorem digits_eq (n : Nat) : digits n = Nat.toDigits 10 n := by
  fun_induction digits n with
  | case1 n hshort => rfl
  | case2 n hlong ihhigh ihlow =>
      have hbits : pieceBits ≤ n.log2 := Nat.le_of_not_lt hlong
      have hn : n ≠ 0 := by
        rintro rfl
        exact hlong (by decide)
      have hcut : 1 < cut n := one_lt_cut hbits
      have hwidth : 0 < halfDigits n := by
        unfold halfDigits pieceBits at *
        omega
      have hhigh : 0 < n / cut n := Nat.div_pos (cut_le hn) (by omega)
      have hlow : n % cut n < 10 ^ halfDigits n := Nat.mod_lt n (by omega)
      have hwhole : n / cut n * 10 ^ halfDigits n + n % cut n = n := Nat.div_add_mod' n (cut n)
      rw [ihhigh, ihlow, ← toDigits_mul_pow_add hhigh hwidth hlow, hwhole]

end Stepwise.Text.Decimal
