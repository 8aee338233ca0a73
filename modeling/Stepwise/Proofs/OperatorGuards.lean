import Mathlib
import Stepwise.Proofs.Typing

/-!
# What guards the operators

A binary operator first looks at the types of its operands, then at the divisor, and only then
asks the host for a value. `BinaryOp.Guarded` says of a result that it is the one fault or the
other exactly when it should be, and a value of the right type otherwise; on every host there is
such a result (`Host.exists_guarded`), so the guards cover all that a host may raise an exception
for. A float counts as zero with either sign.

Integers are divided toward zero. `Truncates` states what makes a quotient and a remainder the
right ones; since they are the rounding of the exact quotient (`Truncates.eq_towardZero`), there
is only one such pair, and the signs of both are those of the operands.
-/

namespace Stepwise

/-! ## Zero -/

/-- Whether a value is zero, with either sign. -/
def Value.IsZero : Value → Prop
  | .int n => n = 0
  | .float x => x = 0 ∨ x = -0
  | .string _ | .bool _ => False

section Floats

open Float.Model

theorem unpacked_compare_zero_iff (x : UnpackedFloat) (s : UnpackedFloat.Sign) :
    (x.compare (.zero s) == some .eq) = true ↔ ∃ t, x = .zero t := by
  cases x with
  | infinity t => cases t <;> simp [UnpackedFloat.compare]
  | notANumber => simp [UnpackedFloat.compare]
  | zero t => simp [UnpackedFloat.compare]
  | finite t m e hm => cases t <;> simp [UnpackedFloat.compare]

/-- A number whose exponent and mantissa have no bit set is all zeros but for its sign. -/
theorem toNat_of_unpack_eq_zero {bits : BitVec 64} {s : UnpackedFloat.Sign}
    (h : UnpackedFloat.unpack Format.binary64 bits = .zero s) :
    bits.toNat = 0 ∨ bits.toNat = 9223372036854775808 := by
  have hlt : bits.toNat < 18446744073709551616 := bits.isLt
  unfold UnpackedFloat.unpack at h
  dsimp only at h
  split at h
  · -- all bits of the exponent are set: infinity, or no number
    split at h <;> cases h
  · split at h
    · rename_i hexponent
      split at h
      · rename_i hmantissa
        -- the fields below the sign, as numbers, are zero
        have he : bits.toNat / 4503599627370496 % 2048 = 0 := by
          simpa [UnpackedFloat.unpackExponent, Nat.shiftRight_eq_div_pow]
            using congrArg BitVec.toNat hexponent
        have hm : bits.toNat % 4503599627370496 = 0 := by
          simpa [UnpackedFloat.unpackMantissa] using congrArg BitVec.toNat hmantissa
        omega
      · cases h
    · cases h

theorem float_eq_of_toNat {x y : Float} (h : x.toModel.toBits.toNat = y.toModel.toBits.toNat) :
    x = y := by
  obtain ⟨bits, hx⟩ := x
  obtain ⟨bits', hy⟩ := y
  obtain rfl : bits = bits' := UInt64.toNat_inj.mp h
  rfl

/-- **Two floats are equal to zero as numbers.** -/
theorem float_beq_zero_iff (x : Float) : (x == 0) = true ↔ x = 0 ∨ x = -0 := by
  constructor
  · intro h
    obtain ⟨s, hs⟩ := (unpacked_compare_zero_iff x.toModel.unpack .positive).mp h
    -- the sign bit is all that is left to tell them apart
    rcases toNat_of_unpack_eq_zero hs with hbits | hbits
    · exact .inl (float_eq_of_toNat hbits)
    · exact .inr (float_eq_of_toNat hbits)
  · rintro (rfl | rfl)
    · decide
    · decide

end Floats

/-! ## Faults and values -/

namespace BinaryOp

/-- Whether the operands have different types, or a type that the operator has no meaning for. -/
def Mistyped (op : BinaryOp) (left right : Ty) : Prop :=
  left ≠ right ∨ ∃ a, op = .arith a ∧ ¬a.Takes left

/-- Whether the operator divides. -/
def Divides : BinaryOp → Prop
  | .compare _ => False
  | .arith a => a.divides

/-- The type of the value for operands of a type. -/
def resultType : BinaryOp → Ty → Ty
  | .compare _, _ => .bool
  | .arith _, t => t

/-- Whether a result is a fault exactly when the operands are at fault, and a value otherwise. -/
structure Guarded (op : BinaryOp) (left right : Value) (result : Except Fault Value) : Prop where
  /-- The types are at fault. -/
  types : result = .error (.binaryOperands op left.type right.type) ↔
    op.Mistyped left.type right.type
  /-- The types are right and the divisor is at fault. -/
  divisor : result = .error (.divisionByZero op) ↔
    ¬op.Mistyped left.type right.type ∧ op.Divides ∧ right.IsZero
  /-- Nothing is at fault. -/
  value : (∃ v, result = .ok v ∧ v.type = op.resultType left.type) ↔
    ¬op.Mistyped left.type right.type ∧ ¬(op.Divides ∧ right.IsZero)

variable {op : BinaryOp} {left right v : Value}

theorem guarded_of_mistyped (h : op.Mistyped left.type right.type) :
    op.Guarded left right (.error (.binaryOperands op left.type right.type)) where
  types := iff_of_true rfl h
  divisor := iff_of_false (by simp) fun hright => hright.1 h
  value := iff_of_false (by simp) fun hright => hright.1 h

theorem guarded_of_isZero (h : ¬op.Mistyped left.type right.type)
    (hzero : op.Divides ∧ right.IsZero) : op.Guarded left right (.error (.divisionByZero op)) where
  types := iff_of_false (by simp) h
  divisor := iff_of_true rfl ⟨h, hzero⟩
  value := iff_of_false (by simp) fun hright => hright.2 hzero

theorem guarded_of_value (h : ¬op.Mistyped left.type right.type)
    (hzero : ¬(op.Divides ∧ right.IsZero)) (hv : v.type = op.resultType left.type) :
    op.Guarded left right (.ok v) where
  types := iff_of_false (by simp) h
  divisor := iff_of_false (by simp) fun hright => hzero hright.2
  value := iff_of_true ⟨v, rfl, hv⟩ ⟨h, hzero⟩

/-- Arithmetic takes two integers or two floats, and addition takes two strings. -/
theorem operands_of_not_mistyped {a : Arithmetic}
    (h : ¬(arith a).Mistyped left.type right.type) :
    (∃ m n, left = .int m ∧ right = .int n) ∨ (∃ x y, left = .float x ∧ right = .float y) ∨
      a = .add ∧ ∃ s t, left = .string s ∧ right = .string t := by
  rw [Mistyped, not_or, not_not] at h
  obtain ⟨htype, htakes⟩ := h
  -- both operands have this type, so it is enough to look at one
  have htakes : a.Takes left.type := by
    by_contra hnot
    exact htakes ⟨a, rfl, hnot⟩
  cases left with
  | int m =>
      cases right with
      | int n => exact .inl ⟨m, n, rfl, rfl⟩
      | _ => cases htype
  | float x =>
      cases right with
      | float y => exact .inr (.inl ⟨x, y, rfl, rfl⟩)
      | _ => cases htype
  | string s =>
      cases right with
      | string t =>
          cases a with
          | add => exact .inr (.inr ⟨rfl, s, t, rfl, rfl⟩)
          | _ => exact htakes.elim
      | _ => cases htype
  | bool b => cases a <;> exact htakes.elim

theorem zero_guard_int (a : Arithmetic) (n : Int) :
    (a.divides && n == 0) = true ↔ (arith a).Divides ∧ (Value.int n).IsZero := by
  rw [Bool.and_eq_true, beq_iff_eq]
  rfl

theorem zero_guard_float (a : Arithmetic) (y : Float) :
    (a.divides && y == 0) = true ↔ (arith a).Divides ∧ (Value.float y).IsZero := by
  rw [Bool.and_eq_true, float_beq_zero_iff]
  rfl

end BinaryOp

theorem Comparison.apply?_of_ne (c : Comparison) {left right : Value}
    (h : left.type ≠ right.type) : c.apply? left right = none := by
  unfold Comparison.apply?
  split
  · exact absurd rfl h
  · exact absurd rfl h
  · exact absurd rfl h
  · exact absurd rfl h
  · rfl

namespace Host

open BinaryOp

variable (host : Host) {op : BinaryOp} {left right : Value}

theorem apply_compare (c : Comparison) (left right : Value) :
    host.apply (.compare c) left right = some (BinaryOp.apply (.compare c) left right) := rfl

theorem apply_arith_of_ne (a : Arithmetic) (h : left.type ≠ right.type) :
    host.apply (.arith a) left right =
      some (.error (.binaryOperands (.arith a) left.type right.type)) := by
  unfold apply
  split
  · exact absurd rfl h
  · exact absurd rfl h
  · -- neither two integers nor two floats, which the host would be asked about
    unfold BinaryOp.apply
    dsimp only
    split
    · exact absurd rfl h
    · exact absurd rfl h
    · exact absurd rfl h
    · rfl

/-- The types are looked at first. -/
theorem apply_of_mistyped (h : op.Mistyped left.type right.type) :
    host.apply op left right = some (.error (.binaryOperands op left.type right.type)) := by
  cases op with
  | compare c =>
      rcases h with hne | ⟨a, ha, -⟩
      · rw [apply_compare, BinaryOp.apply, c.apply?_of_ne hne]
      · cases ha
  | arith a =>
      by_cases hne : left.type = right.type
      · -- one type, but not one that the operator takes
        have htakes : ¬a.Takes left.type := by
          rcases h with h | ⟨a', ha, htakes⟩
          · exact absurd hne h
          · cases ha
            exact htakes
        cases left with
        | int m => exact absurd trivial htakes
        | float x => exact absurd trivial htakes
        | string s =>
            cases right with
            | string t =>
                -- strings are only added
                have hadd : a ≠ .add := by
                  rintro rfl
                  exact htakes trivial
                exact congrArg some (if_neg hadd)
            | _ => cases hne
        | bool b =>
            cases right with
            | bool b' => rfl
            | _ => cases hne
      · exact host.apply_arith_of_ne a hne

/-- The divisor is looked at next. -/
theorem apply_of_isZero (h : ¬op.Mistyped left.type right.type)
    (hzero : op.Divides ∧ right.IsZero) :
    host.apply op left right = some (.error (.divisionByZero op)) := by
  cases op with
  | compare c => exact hzero.1.elim
  | arith a =>
      rcases operands_of_not_mistyped h with
        ⟨m, n, rfl, rfl⟩ | ⟨x, y, rfl, rfl⟩ | ⟨-, s, t, rfl, rfl⟩
      · exact if_pos ((zero_guard_int a n).mpr hzero)
      · exact if_pos ((zero_guard_float a y).mpr hzero)
      · -- no string is zero
        exact hzero.2.elim

/-- What is left has a value, and the host is asked for nothing that it has no answer to. -/
theorem exists_value (h : ¬op.Mistyped left.type right.type)
    (hzero : ¬(op.Divides ∧ right.IsZero)) :
    ∃ v, host.apply op left right = some (.ok v) ∧ v.type = op.resultType left.type := by
  cases op with
  | compare c =>
      -- all values of one type can be compared
      have htype : left.type = right.type := by
        by_contra hne
        exact h (.inl hne)
      obtain ⟨b, hb⟩ := c.exists_apply htype
      exact ⟨.bool b, by rw [apply_compare, hb], rfl⟩
  | arith a =>
      rcases operands_of_not_mistyped h with
        ⟨m, n, rfl, rfl⟩ | ⟨x, y, rfl, rfl⟩ | ⟨rfl, s, t, rfl, rfl⟩
      · -- the guard lets through just what the host has an answer for
        have hguard : (a.divides && n == 0) = false := by
          rw [← Bool.not_eq_true, zero_guard_int]
          exact hzero
        obtain ⟨k, hk⟩ := Option.isSome_iff_exists.mp (host.onInt_isSome a m n hguard)
        refine ⟨.int k, ?_, rfl⟩
        simp only [apply, hguard, hk]
        rfl
      · have hguard : (a.divides && y == 0) = false := by
          rw [← Bool.not_eq_true, zero_guard_float]
          exact hzero
        obtain ⟨z, hz⟩ := Option.isSome_iff_exists.mp (host.floats_isSome (x := x) hguard)
        refine ⟨.float z, ?_, rfl⟩
        simp only [apply, hguard, hz]
        rfl
      · exact ⟨.string (s ++ t), rfl, rfl⟩

/-- **On every host there is a result, and it is guarded.** -/
theorem exists_guarded (op : BinaryOp) (left right : Value) :
    ∃ result, host.apply op left right = some result ∧ op.Guarded left right result := by
  -- the guards in the order in which they are looked at
  by_cases hmistyped : op.Mistyped left.type right.type
  · exact ⟨_, host.apply_of_mistyped hmistyped, guarded_of_mistyped hmistyped⟩
  · by_cases hzero : op.Divides ∧ right.IsZero
    · exact ⟨_, host.apply_of_isZero hmistyped hzero, guarded_of_isZero hmistyped hzero⟩
    · obtain ⟨v, hv, htype⟩ := host.exists_value hmistyped hzero
      exact ⟨_, hv, guarded_of_value hmistyped hzero htype⟩

end Host

/-- The operators that expressions are evaluated with are guarded. -/
theorem BinaryOp.apply_guarded (op : BinaryOp) (left right : Value) :
    op.Guarded left right (op.apply left right) := by
  obtain ⟨result, hresult, hguarded⟩ := Host.standard.exists_guarded op left right
  rw [Host.apply_standard] at hresult
  cases hresult
  exact hguarded

/-! ## Division toward zero -/

/-- A number without its fraction. -/
def towardZero (x : ℚ) : ℤ := if 0 ≤ x then ⌊x⌋ else ⌈x⌉

/-- Whether `q` and `m` are what is left of a division of `a` by `b`: the remainder is smaller
than the divisor, and it has the sign of the dividend unless it is zero. -/
structure Truncates (a b q m : ℤ) : Prop where
  split : a = b * q + m
  small : |m| < |b|
  sign : m = 0 ∨ m.sign = a.sign

theorem div_nonneg_iff_mul (a b : ℤ) : 0 ≤ (a / b : ℚ) ↔ 0 ≤ a * b := by
  rw [div_nonneg_iff, mul_nonneg_iff]
  norm_cast

theorem div_nonpos_iff_mul (a b : ℤ) : (a / b : ℚ) ≤ 0 ↔ a * b ≤ 0 := by
  rw [div_nonpos_iff, mul_nonpos_iff]
  norm_cast

namespace Truncates

variable {a b q m : ℤ}

/-- What the remainder adds to the quotient is on the side of zero where the exact quotient is. -/
theorem fraction_side (h : Truncates a b q m) :
    (0 ≤ (a / b : ℚ) → 0 ≤ (m / b : ℚ)) ∧ ((a / b : ℚ) ≤ 0 → (m / b : ℚ) ≤ 0) := by
  rw [div_nonneg_iff_mul, div_nonneg_iff_mul, div_nonpos_iff_mul, div_nonpos_iff_mul]
  rcases h.sign with hzero | hsign
  · rw [hzero, zero_mul]
    exact ⟨fun _ => le_refl 0, fun _ => le_refl 0⟩
  · -- remainder and dividend have one sign, so both quotients are on one side
    have hmul : (m * b).sign = (a * b).sign := by
      rw [Int.sign_mul, Int.sign_mul, hsign]
    constructor
    · intro hab
      rw [← Int.sign_nonneg_iff, hmul, Int.sign_nonneg_iff]
      exact hab
    · intro hab
      rw [← Int.sign_nonpos_iff, hmul, Int.sign_nonpos_iff]
      exact hab

/-- **The quotient is the exact one without its fraction.** -/
theorem eq_towardZero (h : Truncates a b q m) (hb : b ≠ 0) : q = towardZero (a / b) := by
  have hb' : (b : ℚ) ≠ 0 := Int.cast_ne_zero.mpr hb
  -- the exact quotient is `q` and a fraction that is less than one
  have hsplit : (a / b : ℚ) = q + m / b := by
    rw [h.split]
    push_cast
    field_simp
  have hsmall : |(m / b : ℚ)| < 1 := by
    rw [abs_div, div_lt_one (abs_pos.mpr hb')]
    exact_mod_cast h.small
  obtain ⟨hlow, hhigh⟩ := abs_lt.mp hsmall
  unfold towardZero
  by_cases hside : 0 ≤ (a / b : ℚ)
  · -- the fraction was added to `q`, so `q` is the floor
    have hfraction := h.fraction_side.1 hside
    rw [if_pos hside, eq_comm, Int.floor_eq_iff]
    constructor <;> linarith
  · -- the fraction was taken away, so `q` is the ceiling
    have hfraction := h.fraction_side.2 (le_of_not_ge hside)
    rw [if_neg hside, eq_comm, Int.ceil_eq_iff]
    constructor <;> linarith

/-- There is only one quotient, and with it only one remainder. -/
theorem unique {q' m' : ℤ} (h : Truncates a b q m) (h' : Truncates a b q' m') (hb : b ≠ 0) :
    q' = q ∧ m' = m := by
  have hq : q' = q := by rw [h.eq_towardZero hb, h'.eq_towardZero hb]
  have hsplit := h.split
  rw [h'.split, hq] at hsplit
  exact ⟨hq, by omega⟩

end Truncates

theorem truncates_tdiv (a : ℤ) {b : ℤ} (hb : b ≠ 0) : Truncates a b (a.tdiv b) (a.tmod b) where
  split := (Int.mul_tdiv_add_tmod a b).symm
  small := by
    rw [Int.abs_eq_natAbs, Int.abs_eq_natAbs, Int.natAbs_tmod]
    exact_mod_cast Nat.mod_lt _ (Int.natAbs_pos.mpr hb)
  sign := by
    rw [← Int.sign_eq_zero_iff_zero, Int.sign_tmod]
    by_cases hdvd : b ∣ a
    · rw [if_pos hdvd]
      exact .inl rfl
    · rw [if_neg hdvd]
      exact .inr rfl

/-- The quotient of the magnitudes, with a sign if just one of the numbers is negative. -/
theorem tdiv_eq_magnitudes (a b : ℤ) :
    a.tdiv b = if (a < 0 ↔ b < 0) then |a| / |b| else -(|a| / |b|) := by
  rcases lt_or_ge a 0 with ha | ha
  · -- a negative dividend: the sign is moved out before the numbers are divided
    have htdiv : a.tdiv b = -(-a / b) := by
      rw [← Int.tdiv_eq_ediv_of_nonneg (by omega), Int.neg_tdiv, neg_neg]
    rw [htdiv, abs_of_neg ha]
    rcases lt_or_ge b 0 with hb | hb
    · rw [if_pos (iff_of_true ha hb), abs_of_neg hb, Int.ediv_neg]
    · rw [if_neg (by omega), abs_of_nonneg hb]
  · rw [Int.tdiv_eq_ediv_of_nonneg ha, abs_of_nonneg ha]
    rcases lt_or_ge b 0 with hb | hb
    · rw [if_neg (by omega), abs_of_neg hb, Int.ediv_neg, neg_neg]
    · rw [if_pos (by omega), abs_of_nonneg hb]

namespace BinaryOp

/-- The operator applied to two integers has this integer as its value. -/
def Gives (a : Arithmetic) (m n k : ℤ) : Prop := (arith a).apply (.int m) (.int n) = .ok (.int k)

theorem gives_of_ne {n : ℤ} (a : Arithmetic) (m : ℤ) (hn : n ≠ 0) : Gives a m n (a.onInt m n) := by
  have hguard : ¬(a.divides && n == 0) = true := by
    rw [zero_guard_int]
    exact fun h => hn h.2
  exact if_neg hguard

/-- **Operators are total and exactly guarded, and division truncates.** For every operator and
all operands, the types are at fault exactly when they differ or the operator has no meaning for
them, the divisor is at fault exactly when the types are right and it is zero, and otherwise there
is a value; the same holds on every host, and the host raises no exception. Integers have one
quotient and one remainder that truncate; the quotient is the exact one rounded toward zero, which
is that of the magnitudes up to its sign. To negate the dividend negates both, and to negate the
divisor negates the quotient only. -/
theorem apply_exactly_guarded :
    (∀ (op : BinaryOp) (left right : Value),
      op.Guarded left right (op.apply left right) ∧
        ∀ host : Host, ∃ result, host.apply op left right = some result ∧
          op.Guarded left right result) ∧
      ∀ a b : ℤ, b ≠ 0 → ∃ q m, Gives .divide a b q ∧ Gives .modulo a b m ∧
        Truncates a b q m ∧ (∀ q' m', Truncates a b q' m' → q' = q ∧ m' = m) ∧
        q = towardZero (a / b) ∧
        q = (if (a < 0 ↔ b < 0) then |a| / |b| else -(|a| / |b|)) ∧
        Gives .divide (-a) b (-q) ∧ Gives .modulo (-a) b (-m) ∧
        Gives .divide a (-b) (-q) ∧ Gives .modulo a (-b) m := by
  refine ⟨?_, ?_⟩
  · intro op left right
    exact ⟨op.apply_guarded left right, fun host => host.exists_guarded op left right⟩
  · intro a b hb
    -- rounding toward zero is one way to truncate, and there is only one
    have htruncates := truncates_tdiv a hb
    have hdivide (m : ℤ) {n : ℤ} (hn : n ≠ 0) : Gives .divide m n (m.tdiv n) :=
      gives_of_ne .divide m hn
    have hmodulo (m : ℤ) {n : ℤ} (hn : n ≠ 0) : Gives .modulo m n (m.tmod n) :=
      gives_of_ne .modulo m hn
    refine ⟨a.tdiv b, a.tmod b, hdivide a hb, hmodulo a hb, htruncates, ?_,
      htruncates.eq_towardZero hb, tdiv_eq_magnitudes a b, ?_, ?_, ?_, ?_⟩
    · intro q' m' h'
      exact htruncates.unique h' hb
    · rw [← Int.neg_tdiv]
      exact hdivide (-a) hb
    · rw [← Int.neg_tmod]
      exact hmodulo (-a) hb
    · rw [← Int.tdiv_neg]
      exact hdivide a (neg_ne_zero.mpr hb)
    · rw [← Int.tmod_neg]
      exact hmodulo a (neg_ne_zero.mpr hb)

/-- Zero is divided by a negative number, a float by minus zero, and a string by zero. -/
theorem apply_exactly_guarded_zeros :
    (Gives .divide 0 (-7) 0 ∧ Gives .modulo 0 (-7) 0 ∧
      ∀ q m, Truncates 0 (-7) q m → q = 0 ∧ m = 0) ∧
      (arith .divide).apply (.float 1) (.float (-0)) = .error (.divisionByZero (arith .divide)) ∧
      (arith .modulo).apply (.string "a") (.int 0) =
        .error (.binaryOperands (arith .modulo) .string .int) := by
  obtain ⟨hguarded, hintegers⟩ := apply_exactly_guarded
  refine ⟨?_, ?_, ?_⟩
  · obtain ⟨q, m, hq, hm, -, hunique, -⟩ := hintegers 0 (-7) (by decide)
    obtain ⟨rfl, rfl⟩ := hunique 0 0 ⟨by decide, by decide, .inl rfl⟩
    exact ⟨hq, hm, hunique⟩
  · refine (hguarded _ _ _).1.divisor.mpr ⟨?_, rfl, .inr rfl⟩
    rintro (hne | ⟨a, -, htakes⟩)
    · exact hne rfl
    · exact htakes trivial
  · exact (hguarded _ _ _).1.types.mpr (.inl (by decide))

end BinaryOp

end Stepwise
