import Mathlib
import Stepwise.Proofs.ReadBack

/-!
# Numerals of any length

The text of an integer is its numeral (`IsNumeral`), and the number of a text of digits is what the
digits denote (`denoted`), so the one undoes the other up to zeros in front.

Long numbers are converted by halves, and only the pieces are given to the host, which refuses
numbers that are too long. Where a number is cut may be decided in more than one way:
`Cutting.own` goes by the binary logarithm, and `Cutting.ofEstimate` by an estimate of the number
of digits that a host makes in floating point, of which nothing is known but that it is at most
one off. `Writes` and `Reads` follow the recursion and keep the pieces, so that a derivation is a
conversion that comes back.

What a cutting has to get right at a number is `Cutting.SoundAt`: a number that is not cut is
short, and a number that is cut has more digits than are cut off, or else the high half would be a
zero in front of the others. `Cutting.exists_writes` is the recursion, and the two cuttings are
sound by `Cutting.soundAt_own` and `Cutting.soundAt_ofEstimate`.
-/

namespace Stepwise.Text.Decimal

/-! ## What digits denote -/

/-- The number that digits denote: the last digit counts ones, the one before it
tens, and so on. -/
def denoted (cs : List Char) : Nat := Nat.ofDigits 10 (cs.reverse.map fun c => c.toNat - '0'.toNat)

/-- Whether these are digits, and not none. -/
def AreDigits (cs : List Char) : Prop := cs ≠ [] ∧ ∀ c ∈ cs, c.isDigit

/-- Digits without the zeros in front; the last digit stays. -/
def trimZeros : List Char → List Char
  | c :: d :: cs => if c = '0' then trimZeros (d :: cs) else c :: d :: cs
  | cs => cs

/-- Whether a text is the numeral of an integer: a minus sign in front of a negative one, and then
digits that denote its magnitude, the first of which is no zero unless it is the only one. -/
def IsNumeral (n : Int) (text : String) : Prop :=
  ∃ cs, text.toList = (if n < 0 then ['-'] else []) ++ cs ∧ AreDigits cs ∧
    (cs.head? = some '0' → cs = ['0']) ∧ denoted cs = n.natAbs

theorem ofDigitChars_eq_denoted (cs : List Char) : Nat.ofDigitChars 10 cs 0 = denoted cs := by
  induction cs using List.reverseRecOn with
  | nil => rfl
  | append_singleton cs c ih =>
      -- the last digit counts ones, so the induction adds digits at the end
      rw [Nat.ofDigitChars_append, ih, Nat.ofDigitChars_cons, Nat.ofDigitChars_nil, denoted,
        denoted, List.reverse_concat, List.map_cons, Nat.ofDigits_cons, Nat.add_comm]

theorem toNat_eq_denoted (text : String) : toNat text = denoted text.toList := by
  rw [toNat, value_eq, ofDigitChars_eq_denoted]

theorem digitChar_of_isDigit {c : Char} (h : c.isDigit) :
    c.toNat - '0'.toNat < 10 ∧ Nat.digitChar (c.toNat - '0'.toNat) = c := by
  obtain ⟨hlow, hhigh⟩ := Char.isDigit_iff_toNat.mp h
  have hzero : '0'.toNat = 48 := rfl
  have hnine : '9'.toNat = 57 := rfl
  have hlt : c.toNat - '0'.toNat < 10 := by omega
  refine ⟨hlt, Char.toNat_inj.mp ?_⟩
  rw [Nat.toNat_digitChar_of_lt_ten hlt]
  omega

/-- Digits behind a number that is not zero are the digits of the number that both denote. -/
theorem toDigits_ofDigitChars {cs : List Char} (hcs : ∀ c ∈ cs, c.isDigit) {n : Nat} (hn : 0 < n) :
    Nat.toDigits 10 (Nat.ofDigitChars 10 cs n) = Nat.toDigits 10 n ++ cs := by
  induction cs generalizing n with
  | nil => rw [Nat.ofDigitChars_nil, List.append_nil]
  | cons c cs ih =>
      obtain ⟨hc, hrest⟩ := List.forall_mem_cons.mp hcs
      obtain ⟨hlt, hchar⟩ := digitChar_of_isDigit hc
      -- the next digit moves the number up by one place, where it stays positive
      rw [Nat.ofDigitChars_cons, ih hrest (by omega),
        ← Nat.toDigits_append_toDigits (by omega) hn hlt,
        Nat.toDigits_of_lt_base hlt, hchar, List.append_assoc, List.singleton_append]

/-- **The digits of what digits denote are these digits without zeros in front.** -/
theorem toDigits_denoted {cs : List Char} (h : AreDigits cs) :
    Nat.toDigits 10 (denoted cs) = trimZeros cs := by
  obtain ⟨hne, hdigits⟩ := h
  rw [← ofDigitChars_eq_denoted]
  induction cs with
  | nil => exact absurd rfl hne
  | cons c cs ih =>
      obtain ⟨hc, hrest⟩ := List.forall_mem_cons.mp hdigits
      obtain ⟨hlt, hchar⟩ := digitChar_of_isDigit hc
      rw [Nat.ofDigitChars_cons, Nat.mul_zero, Nat.zero_add]
      cases cs with
      | nil => rw [Nat.ofDigitChars_nil, Nat.toDigits_of_lt_base hlt, hchar, trimZeros]; simp
      | cons d cs =>
          rw [trimZeros]
          by_cases hzero : c = '0'
          · subst hzero
            -- a zero in front adds nothing
            rw [if_pos rfl, Nat.sub_self]
            exact ih (List.cons_ne_nil d cs) hrest
          · -- from the first other digit on, all digits are kept
            have hpos : 0 < c.toNat - '0'.toNat := by
              have hlow := (Char.isDigit_iff_toNat.mp hc).1
              have hne : c.toNat ≠ '0'.toNat := fun h => hzero (Char.toNat_inj.mp h)
              omega
            rw [if_neg hzero, toDigits_ofDigitChars hrest hpos, Nat.toDigits_of_lt_base hlt, hchar,
              List.singleton_append]

theorem denoted_toDigits (n : Nat) : denoted (Nat.toDigits 10 n) = n := by
  rw [← ofDigitChars_eq_denoted, Nat.ofDigitChars_ten_toDigits]

theorem areDigits_toDigits (n : Nat) : AreDigits (Nat.toDigits 10 n) := by
  refine ⟨Nat.toDigits_ne_nil, ?_⟩
  intro c hc
  exact Nat.isDigit_of_mem_toDigits (by omega) (by omega) hc

/-- Without the zeros in front there is none, unless it is the only digit. -/
theorem trimZeros_head (cs : List Char) :
    (trimZeros cs).head? = some '0' → trimZeros cs = ['0'] := by
  intro h
  fun_induction trimZeros cs with
  | case1 d cs ih => exact ih h
  | case2 c d cs hc => exact absurd (Option.some.inj h) hc
  | case3 cs hshort =>
      rcases cs with _ | ⟨c, _ | ⟨d, cs⟩⟩
      · cases h
      · rw [Option.some.inj h]
      · exact absurd rfl (hshort c d cs)

theorem trimZeros_of_head {cs : List Char} (h : cs.head? = some '0' → cs = ['0']) :
    trimZeros cs = cs := by
  rcases cs with _ | ⟨c, _ | ⟨d, cs⟩⟩
  · rfl
  · rfl
  · have hc : c ≠ '0' := by
      rintro rfl
      have hall := h rfl
      simp at hall
    rw [trimZeros, if_neg hc]

/-- **The text of an integer is its numeral, and it has no other.** -/
theorem eq_ofInt_iff (n : Int) (text : String) : text = ofInt n ↔ IsNumeral n text := by
  have hsign (cs : List Char) :
      (if n < 0 then '-' :: cs else cs) = (if n < 0 then ['-'] else []) ++ cs := by
    split <;> rfl
  have htext : (ofInt n).toList = (if n < 0 then ['-'] else []) ++ Nat.toDigits 10 n.natAbs := by
    rw [toList_ofInt, digits_eq, hsign]
  constructor
  · rintro rfl
    refine ⟨_, htext, areDigits_toDigits _, ?_, denoted_toDigits _⟩
    have htrim := toDigits_denoted (areDigits_toDigits n.natAbs)
    rw [denoted_toDigits] at htrim
    rw [htrim]
    exact trimZeros_head _
  · rintro ⟨cs, hcs, hdigits, hhead, hdenoted⟩
    -- digits without zeros in front are those of the number that they denote
    have hself : Nat.toDigits 10 n.natAbs = cs := by
      rw [← hdenoted, toDigits_denoted hdigits, trimZeros_of_head hhead]
    rw [← String.toList_inj, hcs, htext, hself]

/-! ## Cutting -/

/-- Where numbers are cut: how many of the low digits of a number are cut off, or `none` if it is
converted in one piece. -/
abbrev Cutting := Nat → Option Nat

namespace Cutting

/-- The cutting of `digits`. -/
def own : Cutting := fun n => if n.log2 < pieceBits then none else some (halfDigits n)

/-- The cutting in the middle of the digits, by an estimate of the number of digits, less one,
from the number of bits. -/
def ofEstimate (estimate : Nat → Nat) : Cutting := fun n =>
  let count := estimate n.size + 1
  if count ≤ pieceDigits then none else some (count / 2)

/-- How a number is written, and the pieces that are converted on the way. -/
inductive Writes (cut : Cutting) : Nat → List Char → List Nat → Prop where
  | whole {n : Nat} : cut n = none → Writes cut n (Nat.toDigits 10 n) [n]
  | halves {n width : Nat} {high low : List Char} {ps qs : List Nat} :
      cut n = some width → Writes cut (n / 10 ^ width) high ps →
      Writes cut (n % 10 ^ width) low qs →
      Writes cut n (high ++ padZeros width low) (ps ++ qs)

/-- How an integer is written: the sign is split off first. -/
def WritesInt (cut : Cutting) (n : Int) (text : String) (pieces : List Nat) : Prop :=
  ∃ cs, cut.Writes n.natAbs cs pieces ∧
    text = if n < 0 then "-" ++ String.ofList cs else String.ofList cs

/-- Whether a cutting does well at a number. -/
def SoundAt (cut : Cutting) (n : Nat) : Prop :=
  match cut n with
  | none => (Nat.toDigits 10 n).length < 4300
  | some width => 0 < width ∧ 10 ^ width ≤ n

variable {cut : Cutting} {n : Nat}

/-- A number is written in one way. -/
theorem Writes.unique {cs cs' : List Char} {ps ps' : List Nat} (h : cut.Writes n cs ps)
    (h' : cut.Writes n cs' ps') : cs' = cs ∧ ps' = ps := by
  induction h generalizing cs' ps' with
  | whole hcut =>
      cases h' with
      | whole => exact ⟨rfl, rfl⟩
      | halves hcut' => rw [hcut] at hcut'; cases hcut'
  | halves hcut _ _ ihhigh ihlow =>
      cases h' with
      | whole hcut' => rw [hcut] at hcut'; cases hcut'
      | halves hcut' hhigh hlow =>
          rw [hcut] at hcut'
          cases hcut'
          obtain ⟨rfl, rfl⟩ := ihhigh hhigh
          obtain ⟨rfl, rfl⟩ := ihlow hlow
          exact ⟨rfl, rfl⟩

/-- **A number is written in full, from short pieces**, if the cutting does well at
it and below it. -/
theorem exists_writes (h : ∀ m ≤ n, cut.SoundAt m) :
    ∃ ps, cut.Writes n (Nat.toDigits 10 n) ps ∧ ∀ k ∈ ps, (Nat.toDigits 10 k).length < 4300 := by
  induction n using Nat.strongRecOn with
  | ind n ih =>
      have hsound := h n le_rfl
      unfold SoundAt at hsound
      cases hcut : cut n with
      | none =>
          rw [hcut] at hsound
          exact ⟨[n], .whole hcut, List.forall_mem_singleton.mpr hsound⟩
      | some width =>
          rw [hcut] at hsound
          obtain ⟨hwidth, hle⟩ := hsound
          have hpow : 1 < 10 ^ width := Nat.one_lt_pow (by omega) (by omega)
          -- both halves are smaller, which carries the recursion
          have hhigh : n / 10 ^ width < n := Nat.div_lt_self (by omega) hpow
          have hlow : n % 10 ^ width < 10 ^ width := Nat.mod_lt n (by omega)
          obtain ⟨ps, hps, hshort⟩ := ih (n / 10 ^ width) hhigh fun m hm => h m (by omega)
          obtain ⟨qs, hqs, hshort'⟩ := ih (n % 10 ^ width) (by omega) fun m hm => h m (by omega)
          -- the high half is not zero, so it brings no zero in front
          have hpos : 0 < n / 10 ^ width := Nat.div_pos hle (by omega)
          have hdigits := toDigits_mul_pow_add hpos hwidth hlow
          rw [Nat.div_add_mod'] at hdigits
          rw [hdigits]
          exact ⟨ps ++ qs, .halves hcut hps hqs, List.forall_mem_append.mpr ⟨hshort, hshort'⟩⟩

theorem length_toDigits_lt {digits : Nat} (h : n < 10 ^ digits) (hpos : 0 < digits)
    (hshort : digits < 4300) : (Nat.toDigits 10 n).length < 4300 := by
  have hle := (Nat.length_toDigits_le_iff (by omega) hpos).mpr h
  omega

/-- The cutting by the binary logarithm does well everywhere. -/
theorem soundAt_own (n : Nat) : own.SoundAt n := by
  unfold SoundAt own
  by_cases hshort : n.log2 < pieceBits
  · rw [if_pos hshort]
    -- a number of so few bits has at most as many digits
    have hlt : n < 10 ^ pieceBits :=
      calc n < 2 ^ (n.log2 + 1) := Nat.lt_log2_self
        _ ≤ 2 ^ pieceBits := Nat.pow_le_pow_right (by omega) hshort
        _ ≤ 10 ^ pieceBits := Nat.pow_le_pow_left (by omega) _
    exact length_toDigits_lt hlt (by decide) (by decide)
  · rw [if_neg hshort]
    have hbits : pieceBits ≤ n.log2 := Nat.le_of_not_lt hshort
    have hn : n ≠ 0 := by
      rintro rfl
      exact hshort (by decide)
    refine ⟨?_, cut_le hn⟩
    unfold halfDigits pieceBits at *
    omega

/-! ## Estimates of the number of digits -/

/-- The exact number that a host estimates: the whole part of the decimal logarithm of two to this
power. -/
noncomputable def exactEstimate (bits : Nat) : Nat := ⌊(bits : ℝ) * Real.logb 10 2⌋₊

/-- Whether an estimate is at most one off. -/
def WithinOne (estimate : Nat → Nat) (bits : Nat) : Prop :=
  estimate bits ≤ exactEstimate bits + 1 ∧ exactEstimate bits ≤ estimate bits + 1

theorem exactEstimate_eq_log (bits : Nat) : exactEstimate bits = Nat.log 10 (2 ^ bits) := by
  rw [exactEstimate, ← Real.natFloor_logb_natCast]
  push_cast
  rw [Real.logb_pow]

theorem lt_pow_exactEstimate (n : Nat) : n < 10 ^ (exactEstimate n.size + 1) := by
  rw [exactEstimate_eq_log]
  exact (Nat.lt_size_self n).trans (Nat.lt_pow_succ_log_self (by omega) _)

/-- A power of ten with one digit less than the estimate is not above the number. -/
theorem pow_exactEstimate_le (h : 0 < exactEstimate n.size) :
    10 ^ (exactEstimate n.size - 1) ≤ n := by
  have hlog : 10 ^ exactEstimate n.size ≤ 2 ^ n.size := by
    rw [exactEstimate_eq_log]
    exact Nat.pow_log_le_self 10 (by positivity)
  have hsize : 0 < n.size := by
    by_contra hzero
    have hone : (10 : Nat) ^ 1 ≤ 10 ^ exactEstimate n.size := Nat.pow_le_pow_right (by omega) h
    rw [Nat.eq_zero_of_not_pos hzero] at hlog hone
    omega
  have hhalf : 2 ^ (n.size - 1) ≤ n := Nat.lt_size.mp (by omega)
  -- a tenth of the power of ten is not more than half of the power of two
  have hten : 10 * 10 ^ (exactEstimate n.size - 1) = 10 ^ exactEstimate n.size := by
    rw [← pow_succ', Nat.sub_add_cancel h]
  have htwo : 2 * 2 ^ (n.size - 1) = 2 ^ n.size := by
    rw [← pow_succ', Nat.sub_add_cancel hsize]
  omega

/-- The cutting by an estimate does well where the estimate is at most one off. -/
theorem soundAt_ofEstimate {estimate : Nat → Nat} (h : WithinOne estimate n.size) :
    (ofEstimate estimate).SoundAt n := by
  obtain ⟨hhigh, hlow⟩ := h
  unfold SoundAt ofEstimate
  dsimp only
  by_cases hshort : estimate n.size + 1 ≤ pieceDigits
  · rw [if_pos hshort]
    unfold pieceDigits at hshort
    exact length_toDigits_lt (lt_pow_exactEstimate n) (by omega) (by omega)
  · rw [if_neg hshort]
    -- half of an estimate that is one too large is still below the true number of digits
    unfold pieceDigits at hshort
    refine ⟨by omega, ?_⟩
    calc 10 ^ ((estimate n.size + 1) / 2)
        ≤ 10 ^ (exactEstimate n.size - 1) := Nat.pow_le_pow_right (by omega) (by omega)
      _ ≤ n := pow_exactEstimate_le (by omega)

/-- Whether an integer is written: it is so with this text and with no other, and all that is
converted on the way is short. -/
def Completes (cut : Cutting) (n : Int) (text : String) : Prop :=
  ∃ pieces, cut.WritesInt n text pieces ∧
    (∀ text' pieces', cut.WritesInt n text' pieces' → text' = text ∧ pieces' = pieces) ∧
    ∀ k ∈ pieces, (Nat.toDigits 10 k).length < 4300

/-- **A cutting that does well writes the text of every integer.** -/
theorem completes_ofInt {n : Int} (h : ∀ m ≤ n.natAbs, cut.SoundAt m) :
    cut.Completes n (ofInt n) := by
  obtain ⟨pieces, hwrites, hshort⟩ := exists_writes h
  refine ⟨pieces, ⟨Nat.toDigits 10 n.natAbs, hwrites, ?_⟩, ?_, hshort⟩
  · rw [ofInt, ofNat, digits_eq]
  · rintro text' pieces' ⟨cs, hcs, rfl⟩
    obtain ⟨rfl, rfl⟩ := hwrites.unique hcs
    rw [ofInt, ofNat, digits_eq]
    exact ⟨rfl, rfl⟩

end Cutting

/-! ## Reading by halves -/

/-- How a text is read, and the pieces that are converted on the way. -/
inductive Reads : List Char → Nat → List (List Char) → Prop where
  | whole {cs : List Char} : cs.length ≤ pieceDigits → Reads cs (Nat.ofDigitChars 10 cs 0) [cs]
  | halves {cs : List Char} {high low : Nat} {ps qs : List (List Char)} :
      pieceDigits < cs.length → Reads (cs.take (cs.length - cs.length / 2)) high ps →
      Reads (cs.drop (cs.length - cs.length / 2)) low qs →
      Reads cs (high * 10 ^ (cs.length / 2) + low) (ps ++ qs)

theorem Reads.unique {cs : List Char} {n n' : Nat} {ps ps' : List (List Char)} (h : Reads cs n ps)
    (h' : Reads cs n' ps') : n' = n ∧ ps' = ps := by
  induction h generalizing n' ps' with
  | whole hshort =>
      cases h' with
      | whole => exact ⟨rfl, rfl⟩
      | halves hlong => omega
  | halves hlong _ _ ihhigh ihlow =>
      cases h' with
      | whole hshort => omega
      | halves _ hhigh hlow =>
          obtain ⟨rfl, rfl⟩ := ihhigh hhigh
          obtain ⟨rfl, rfl⟩ := ihlow hlow
          exact ⟨rfl, rfl⟩

/-- **A text of digits is read, from short pieces of digits.** -/
theorem exists_reads {cs : List Char} (h : AreDigits cs) :
    ∃ ps, Reads cs (value cs) ps ∧ ∀ p ∈ ps, AreDigits p ∧ p.length < 4300 := by
  fun_induction value cs with
  | case1 cs hshort =>
      have hlength : cs.length < 4300 := by
        unfold pieceDigits at hshort
        omega
      exact ⟨[cs], .whole hshort, List.forall_mem_singleton.mpr ⟨h, hlength⟩⟩
  | case2 cs hlong ihfront ihback =>
      have hlength : pieceDigits < cs.length := Nat.lt_of_not_le hlong
      unfold pieceDigits at hlength
      -- both halves have digits, as the text is longer than one
      have hfront : AreDigits (cs.take (cs.length - cs.length / 2)) := by
        refine ⟨?_, fun c hc => h.2 c (List.mem_of_mem_take hc)⟩
        rw [← List.length_pos_iff_ne_nil, List.length_take]
        omega
      have hback : AreDigits (cs.drop (cs.length - cs.length / 2)) := by
        refine ⟨?_, fun c hc => h.2 c (List.mem_of_mem_drop hc)⟩
        rw [← List.length_pos_iff_ne_nil, List.length_drop]
        omega
      obtain ⟨ps, hps, hshort⟩ := ihfront hfront
      obtain ⟨qs, hqs, hshort'⟩ := ihback hback
      exact ⟨ps ++ qs, .halves hlength hps hqs, List.forall_mem_append.mpr ⟨hshort, hshort'⟩⟩

/-- Whether a text is read: it is so with this number and with no other, and all that is converted
on the way is short. -/
def ReadCompletes (cs : List Char) (n : Nat) : Prop :=
  ∃ pieces, Reads cs n pieces ∧
    (∀ n' pieces', Reads cs n' pieces' → n' = n ∧ pieces' = pieces) ∧
    ∀ p ∈ pieces, AreDigits p ∧ p.length < 4300

theorem readCompletes_value {cs : List Char} (h : AreDigits cs) : ReadCompletes cs (value cs) := by
  obtain ⟨pieces, hreads, hshort⟩ := exists_reads h
  exact ⟨pieces, hreads, fun n' pieces' h' => hreads.unique h', hshort⟩

/-- **Decimal conversion is exact at every length.** The text of an integer is its numeral and
nothing else is. It comes out of the halves that numbers are cut into here, and of those of a
host whose estimates of the number of digits are at most one off for numbers of this size: the
writing comes back with this text, and every piece has fewer than 4300 digits. A text of digits
is read as the number that it denotes, from pieces that are as short. So a natural number is
read back from its text, and the text of the number that digits denote is these digits without
the zeros in front. -/
theorem conversions_exact :
    (∀ (n : Int) (text : String), text = ofInt n ↔ IsNumeral n text) ∧
      (∀ n : Int, Cutting.own.Completes n (ofInt n)) ∧
      (∀ (estimate : Nat → Nat) (n : Int),
        (∀ bits ≤ n.natAbs.size, Cutting.WithinOne estimate bits) →
          (Cutting.ofEstimate estimate).Completes n (ofInt n)) ∧
      (∀ text : String, AreDigits text.toList →
        toNat text = denoted text.toList ∧ ReadCompletes text.toList (toNat text)) ∧
      (∀ n : Nat, toNat (ofInt n) = n) ∧
      ∀ text : String, AreDigits text.toList →
        ofInt (toNat text) = String.ofList (trimZeros text.toList) := by
  refine ⟨eq_ofInt_iff, ?_, ?_, ?_, ?_, ?_⟩
  · intro n
    exact Cutting.completes_ofInt fun m _ => Cutting.soundAt_own m
  · intro estimate n hestimate
    apply Cutting.completes_ofInt
    intro m hm
    exact Cutting.soundAt_ofEstimate (hestimate m.size (Nat.size_le_size hm))
  · intro text htext
    exact ⟨toNat_eq_denoted text, readCompletes_value htext⟩
  · intro n
    have hlist : (ofInt n).toList = Nat.toDigits 10 n := by
      rw [toList_ofInt, if_neg (by omega), digits_eq, Int.natAbs_natCast]
    rw [toNat_eq_denoted, hlist, denoted_toDigits]
  · intro text htext
    rw [toNat_eq_denoted, ← String.toList_inj, toList_ofInt, if_neg (by omega), digits_eq,
      Int.natAbs_natCast, toDigits_denoted htext, String.toList_ofList]

/-- The estimate of a host that makes no mistake. -/
def logEstimate (bits : Nat) : Nat := Nat.log 10 (2 ^ bits)

/-- A negative number that is cut, and whose low half is zero. -/
def manyZeros : Int := -(10 ^ 1100)

theorem conversions_exact_manyZeros :
    (∀ bits ≤ manyZeros.natAbs.size, Cutting.WithinOne logEstimate bits) ∧
      (Cutting.ofEstimate logEstimate).Completes manyZeros (ofInt manyZeros) ∧
      AreDigits "0070".toList ∧ toNat "0070" = 70 ∧ ofInt (toNat "0070") = "70" := by
  obtain ⟨-, -, hwrites, hreads, -, htrims⟩ := conversions_exact
  have hestimate (bits : Nat) : Cutting.WithinOne logEstimate bits := by
    rw [Cutting.WithinOne, Cutting.exactEstimate_eq_log]
    exact ⟨Nat.le_succ _, Nat.le_succ _⟩
  have hdigits : AreDigits "0070".toList := ⟨by decide, List.all_eq_true.mp rfl⟩
  refine ⟨fun bits _ => hestimate bits, ?_, hdigits, ?_, ?_⟩
  · exact hwrites logEstimate manyZeros fun bits _ => hestimate bits
  · rw [(hreads _ hdigits).1]
    rfl
  · rw [htrims _ hdigits]
    rfl

end Stepwise.Text.Decimal
