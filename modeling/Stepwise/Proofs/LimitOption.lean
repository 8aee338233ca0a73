import Stepwise.Command.Options
import Stepwise.Proofs.Numerals

/-!
# The limit can be given as any integer

Each integer of at most `IntegerText.maxDigits` digits is a limit that can be asked for: its
decimal text behind `--max-steps` is taken for a word, even if there is a minus sign in front, and
is read as that integer (`Invocation.ofArguments_limited`).

The option may be put before any arguments that do not set a limit themselves. Of two limits the
last one counts, and no argument takes a limit back, so what the arguments come to without a limit
is all that has to be known of them.
-/

namespace Stepwise

/-! ## The digits of an integer are read back -/

namespace Text

open Decimal (AreDigits)

/-- What holds of all ten digits holds of each. -/
theorem forall_of_isDigit {P : Char → Prop} (h : ∀ d < 10, P (Nat.digitChar d)) {c : Char}
    (hc : c.isDigit) : P c := by
  obtain ⟨hlt, hchar⟩ := Decimal.digitChar_of_isDigit hc
  rw [← hchar]
  exact h _ hlt

theorem decimalDigit?_of_isDigit {c : Char} (h : c.isDigit) :
    decimalDigit? c = some (c.toNat - '0'.toNat) :=
  forall_of_isDigit (P := fun c => decimalDigit? c = some (c.toNat - '0'.toNat)) (by decide) h

theorem isBlank_of_isDigit {c : Char} (h : c.isDigit) : isBlank c = false :=
  forall_of_isDigit (P := fun c => isBlank c = false) (by decide) h

theorem dropWhile_isBlank {cs : List Char} (h : ∀ c ∈ cs, isBlank c = false) :
    cs.dropWhile isBlank = cs := by
  cases cs with
  | nil => rfl
  | cons c cs => rw [List.dropWhile_cons, h c List.mem_cons_self]; rfl

/-- Where there is no blank none is taken away. -/
theorem trimBlank_of_forall {cs : List Char} (h : ∀ c ∈ cs, isBlank c = false) :
    trimBlank cs = cs := by
  have hreverse : ∀ c ∈ cs.reverse, isBlank c = false :=
    fun c hc => h c (List.mem_reverse.mp hc)
  rw [trimBlank, dropWhile_isBlank h, dropWhile_isBlank hreverse, List.reverse_reverse]

namespace IntegerText

/-- No digit is an underscore, so each one is read for itself. -/
theorem digits?_of_areDigits {cs : List Char} (h : AreDigits cs) :
    digits? cs = some (cs.map fun c => c.toNat - '0'.toNat) := by
  obtain ⟨hne, hdigits⟩ := h
  fun_induction digits? cs with
  | case1 => exact absurd rfl hne
  | case2 c => simp [decimalDigit?_of_isDigit (hdigits c (by simp))]
  | case3 c rest ih =>
      exact absurd (hdigits '_' (by simp)) (by decide)
  | case4 c rest hrest _ ih =>
      obtain ⟨hc, hdigits⟩ := List.forall_mem_cons.mp hdigits
      rw [decimalDigit?_of_isDigit hc, ih (fun h => hrest h) hdigits]
      rfl

theorem natural?_toDigits (n : Nat) : natural? (Nat.toDigits 10 n) =
    if (Nat.toDigits 10 n).length ≤ maxDigits then some n else none := by
  rw [natural?, digits?_of_areDigits (Decimal.areDigits_toDigits n)]
  have hvalue : ofDigits ((Nat.toDigits 10 n).map fun c => c.toNat - '0'.toNat) = n := by
    rw [ofDigits, List.foldl_map]
    exact Nat.ofDigitChars_ten_toDigits
  simp only [Option.bind_eq_bind, Option.bind_some, List.length_map, hvalue]

/-- **The decimal text of an integer is read as this integer**, unless it has too many digits. -/
theorem parse?_ofInt (n : Int) : parse? (Decimal.ofInt n) =
    if (Decimal.digits n.natAbs).length ≤ maxDigits then some n else none := by
  have hdigits := (Decimal.areDigits_toDigits n.natAbs).2
  have hblank : ∀ c ∈ Nat.toDigits 10 n.natAbs, isBlank c = false :=
    fun c hc => isBlank_of_isDigit (hdigits c hc)
  rw [parse?, Decimal.toList_ofInt, Decimal.digits_eq]
  by_cases hn : n < 0
  · have hneg : -(n.natAbs : Int) = n := by omega
    rw [if_pos hn, trimBlank_of_forall (List.forall_mem_cons.mpr ⟨by decide, hblank⟩)]
    simp only [natural?_toDigits]
    split
    · exact congrArg some hneg
    · rfl
  · have hpos : (n.natAbs : Int) = n := by omega
    rw [if_neg hn, trimBlank_of_forall hblank]
    split
    · -- no digit is a sign
      rename_i cs hcs
      rw [hcs] at hdigits
      exact absurd (hdigits '-' List.mem_cons_self) (by decide)
    · rename_i cs hcs
      rw [hcs] at hdigits
      exact absurd (hdigits '+' List.mem_cons_self) (by decide)
    · rw [natural?_toDigits]
      split
      · exact congrArg some hpos
      · rfl

end IntegerText

end Text

namespace Command

open Text.Decimal (ofInt AreDigits)

/-! ## The text of an integer is a word -/

namespace Argument

theorem ofLetter?_of_isDigit {c : Char} (h : c.isDigit) : Flag.ofLetter? c = none :=
  Text.forall_of_isDigit (P := fun c => Flag.ofLetter? c = none) (by decide) h

/-- No option has a digit for its letter. -/
theorem ofShort?_of_isDigit {c : Char} (cs : List Char) (h : c.isDigit) :
    ofShort? ('-' :: c :: cs) = none := by
  have hnone := ofLetter?_of_isDigit h
  unfold ofShort?
  split
  · next heq => cases heq; rw [hnone]; rfl
  · next heq => cases heq; rw [hnone]; rfl
  · next heq => cases heq; rw [hnone]; rfl
  · rfl

theorem isNegativeNumber_of_areDigits {cs : List Char} (h : AreDigits cs) :
    isNegativeNumber ('-' :: cs) = true := by
  obtain ⟨hne, hdigits⟩ := h
  have hlast : cs.getLast? ≠ some '\n' :=
    fun hlast => absurd (hdigits _ (List.mem_of_getLast? hlast)) (by decide)
  have hnone : cs.dropWhile (fun c => (Text.decimalDigit? c).isSome) = [] := by
    rw [List.dropWhile_eq_nil_iff]
    intro c hc
    rw [Text.decimalDigit?_of_isDigit (hdigits c hc)]
    rfl
  simp only [isNegativeNumber, if_neg hlast, hnone, Bool.not_eq_true', List.isEmpty_eq_false_iff]
  exact hne

/-- A dash in front of digits makes a word, for no option looks like it. -/
theorem ofText_negative {text : String} {cs : List Char} (h : AreDigits cs)
    (htext : text.toList = '-' :: cs) : ofText text = .ok (.word text) := by
  obtain ⟨c, cs, rfl⟩ := List.exists_cons_of_ne_nil h.1
  have hc : c.isDigit := h.2 c List.mem_cons_self
  have hdash : c ≠ '-' := by
    rintro rfl
    cases hc
  have hne : text ≠ "-" := by
    rintro rfl
    cases htext
  have hlong : ['-', '-'].isPrefixOf text.toList = false := by
    simp [htext, List.isPrefixOf, hdash.symm]
  have hdashed : ofDashed text = .ok (.word text) := by
    rw [ofDashed, hlong]
    simp only [htext, ofShort?_of_isDigit cs hc, isNegativeNumber_of_areDigits h]
    rfl
  rw [ofText, htext]
  simp [hne, hdashed]

/-- The text of an integer is a word, also if there is a dash in front. -/
theorem ofText_ofInt (n : Int) : ofText (ofInt n) = .ok (.word (ofInt n)) := by
  have hdigits := Text.Decimal.areDigits_toDigits n.natAbs
  have htext := Text.Decimal.toList_ofInt n
  rw [Text.Decimal.digits_eq] at htext
  by_cases hn : n < 0
  · rw [if_pos hn] at htext
    exact ofText_negative hdigits htext
  · rw [if_neg hn] at htext
    have hhead : (Nat.toDigits 10 n.natAbs).head? ≠ some '-' :=
      fun h => absurd (hdigits.2 _ (List.mem_of_mem_head? h)) (by decide)
    rw [ofText, htext]
    simp [hhead]

/-- It is not the argument behind which all are words. -/
theorem ofInt_ne_separator (n : Int) : ofInt n ≠ "--" := by
  intro h
  have hword := ofText_ofInt n
  rw [h] at hword
  -- two dashes alone start every long option
  cases hword

end Argument

/-! ## A limit in front of other arguments -/

namespace Reading

variable {m : Setting (Option Int)}

/-- The reading with another limit. -/
def limited (m : Setting (Option Int)) (r : Reading) : Reading :=
  { r with invocation := { r.invocation with maxSteps := m } }

theorem script_limited (r : Reading) :
    (r.limited m).invocation.script = r.invocation.script := rfl

/-- Whether what is obeyed leaves the limit alone where it does not set one: without a limit
afterwards there was none before, and with any limit it comes to the same. -/
def Spares (obeys : Reading → Except Halt Reading) : Prop :=
  ∀ r r' : Reading, obeys r = .ok r' → r'.invocation.maxSteps = .given none →
    r.invocation.maxSteps = .given none ∧ ∀ m, obeys (r.limited m) = .ok (r'.limited m)

/-- A sequence that comes to something does so in two steps. -/
theorem exists_of_bind_eq_ok {ε α β : Type} {x : Except ε α} {f : α → Except ε β} {b : β}
    (h : (x >>= f) = .ok b) : ∃ a, x = .ok a ∧ f a = .ok b := by
  cases x with
  | error e => cases h
  | ok a => exact ⟨a, rfl, h⟩

theorem Spares.bind {obeys obeys' : Reading → Except Halt Reading} (h : Spares obeys)
    (h' : Spares obeys') : Spares fun r => obeys r >>= obeys' := by
  intro r r'' hboth hfree
  obtain ⟨r', hfirst, hrest⟩ := exists_of_bind_eq_ok hboth
  -- backwards: there was no limit between the two, and so there was none at first
  obtain ⟨hfree', hrest'⟩ := h' r' r'' hrest hfree
  obtain ⟨hfree'', hfirst'⟩ := h r r' hfirst hfree'
  refine ⟨hfree'', fun m => ?_⟩
  change (obeys (r.limited m) >>= obeys') = _
  rw [hfirst' m]
  exact hrest' m

theorem spares_obey (flag : Flag) : Spares (obey · flag) := by
  intro r r' h hfree
  cases flag with
  | help | maxSteps | assignStyle | declStyle => cases h
  | sample | trace | step | verbose =>
      cases h
      exact ⟨hfree, fun _ => rfl⟩

/-- What is read as a limit is one, or is blank. -/
theorem readInteger_ne_free {flag : Flag} {value : String} :
    readInteger flag value ≠ .ok (.given none) := by
  unfold readInteger
  split
  · exact nofun
  · split
    · exact nofun
    · exact nofun

/-- An option with a value sets its own setting only. -/
theorem spares_obeyWith (flag : Flag) (value : String) : Spares (obeyWith · flag value) := by
  intro r r' h hfree
  cases flag with
  | help | sample | trace | step | verbose => cases h
  | maxSteps =>
      -- this one sets the limit, and not to none
      obtain ⟨limit, hlimit, hr'⟩ := exists_of_bind_eq_ok h
      cases hr'
      cases hfree
      exact absurd hlimit readInteger_ne_free
  | assignStyle =>
      obtain ⟨style, hstyle, hr'⟩ := exists_of_bind_eq_ok h
      cases hr'
      refine ⟨hfree, fun m => ?_⟩
      simp only [obeyWith, hstyle]
      rfl
  | declStyle =>
      obtain ⟨style, hstyle, hr'⟩ := exists_of_bind_eq_ok h
      cases hr'
      refine ⟨hfree, fun m => ?_⟩
      simp only [obeyWith, hstyle]
      rfl

theorem spares_foldlM (flags : List Flag) : Spares (flags.foldlM obey ·) := by
  induction flags with
  | nil =>
      intro r r' h hfree
      cases h
      exact ⟨hfree, fun _ => rfl⟩
  | cons flag flags ih => exact (spares_obey flag).bind ih

theorem spares_obeyAll (arguments : List Argument) : Spares (obeyAll · arguments) := by
  intro r r' h hfree
  simp only at h ⊢
  -- along the reading; whether there is a script yet has nothing to do with the limit
  fun_induction obeyAll r arguments generalizing r' with
  | case1 r =>
      cases h
      exact ⟨hfree, fun _ => rfl⟩
  | case2 r flag value rest ih =>
      simp only [obeyAll]
      exact (spares_obeyWith flag value).bind ih r r' h hfree
  | case3 r flag value rest htakes ih =>
      simp only [obeyAll, if_pos htakes]
      exact (spares_obeyWith flag value).bind ih r r' h hfree
  | case4 r flag value rest htakes ih =>
      simp only [obeyAll, if_neg htakes]
      exact (spares_obey flag).bind ih r r' h hfree
  | case5 r flag rest hrest ih =>
      simp only [obeyAll]
      exact (spares_obey flag).bind ih r r' h hfree
  | case6 r flag letters rest ih =>
      obtain ⟨flags, hflags, hrest⟩ := exists_of_bind_eq_ok h
      simp only [obeyAll, hflags]
      exact (spares_foldlM flags).bind ih r r' hrest hfree
  | case7 r text rest ih =>
      simp only [obeyAll]
      exact ih r' h hfree
  | case8 r rest hnone ih =>
      simp only [obeyAll, script_limited, hnone, if_true]
      exact ih r' h hfree
  | case9 r rest hsome ih =>
      simp only [obeyAll, script_limited, hsome]
      exact ih r' h hfree
  | case10 r text rest hnone ih =>
      simp only [obeyAll, script_limited, hnone, if_true]
      exact ih r' h hfree
  | case11 r text rest hsome ih =>
      simp only [obeyAll, script_limited, hsome]
      exact ih r' h hfree
  | case12 r text rest hrest hnone ih =>
      simp only [obeyAll, script_limited, hnone, if_true]
      exact ih r' h hfree
  | case13 r text rest hrest hsome ih =>
      simp only [obeyAll, script_limited, hsome]
      exact ih r' h hfree

end Reading

/-- Without arguments that nobody wants the invocation is the one that was read. -/
theorem Invocation.ofArguments_eq_ok_iff {arguments : List String} {inv : Invocation} :
    ofArguments arguments = .ok inv ↔ ∃ classified, Argument.classify arguments = .ok classified ∧
      Reading.obeyAll {} classified = .ok ⟨inv, []⟩ := by
  unfold ofArguments
  constructor
  · intro h
    obtain ⟨classified, hclassify, h⟩ := Reading.exists_of_bind_eq_ok h
    obtain ⟨⟨inv', surplus⟩, hobey, h⟩ := Reading.exists_of_bind_eq_ok h
    cases hclassify' : Argument.classify arguments with
    | error e =>
        rw [hclassify'] at hclassify
        cases hclassify
    | ok classified' =>
        rw [hclassify'] at hclassify
        cases hclassify
        cases surplus with
        | nil =>
            cases h
            exact ⟨classified, rfl, hobey⟩
        | cons text surplus => cases h
  · rintro ⟨classified, hclassify, hobey⟩
    rw [hclassify]
    change (Reading.obeyAll {} classified >>= _) = _
    rw [hobey]
    rfl

/-- **Every integer can be asked for as the limit**, if it has no more digits than an option may
have: its decimal text behind `--max-steps`, in front of arguments that set no limit, is read as
this limit and changes nothing else. -/
theorem Invocation.ofArguments_limited {free : List String} {inv : Invocation} {n : Int}
    (hfree : ofArguments free = .ok { inv with maxSteps := .given none })
    (hn : (Text.Decimal.digits n.natAbs).length ≤ Text.IntegerText.maxDigits) :
    ofArguments ("--max-steps" :: ofInt n :: free) =
      .ok { inv with maxSteps := .given (some n) } := by
  obtain ⟨classified, hclassify, hobey⟩ := ofArguments_eq_ok_iff.mp hfree
  refine ofArguments_eq_ok_iff.mpr
    ⟨.option .maxSteps none :: .word (ofInt n) :: classified, ?_, ?_⟩
  · have hoption : Argument.ofText "--max-steps" = .ok (.option .maxSteps none) := by
      rfl
    rw [Argument.classify, if_neg (by decide), Argument.classify,
      if_neg (Argument.ofInt_ne_separator n), hoption, Argument.ofText_ofInt, hclassify]
    rfl
  · have hread : Reading.readInteger .maxSteps (ofInt n) = .ok (.given (some n)) := by
      rw [Reading.readInteger, if_neg (Argument.ofInt_ne_separator n),
        Text.IntegerText.parse?_ofInt, if_pos hn]
    have hset : Reading.obeyWith {} .maxSteps (ofInt n) =
        .ok (Reading.limited (.given (some n)) {}) := by
      rw [Reading.obeyWith, hread]
      rfl
    have htakes : Flag.maxSteps.takesValue = true := rfl
    rw [Reading.obeyAll, if_pos htakes, hset]
    exact (Reading.spares_obeyAll classified _ _ hobey rfl).2 _

end Command

end Stepwise
