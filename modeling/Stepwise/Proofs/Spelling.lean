import Stepwise.Token.Lexer

/-!
# How lexemes are spelled

A lexeme is a symbol, a word, a number or a string. `Lexeme.Spelled` says which texts spell which
lexeme, without regard to what comes behind them, and `Lexeme.Longest` that the first characters
of a text spell a lexeme and that no more of them spell anything.

Reading decides by the first character. `Lexeme.Shape` puts the spellings into that order, and
`Scanned.ofChars_eq_ok_iff` is the result: what is read at a place is the longest lexeme that
starts there. Where nothing is read, no lexeme starts (`Scanned.ofChars_error`).
-/

namespace Stepwise

/-! ## Spellings -/

/-- Whether a text has the form of a name. -/
def IsWord : List Char → Prop
  | [] => False
  | c :: more => Scanned.isWordStart c ∧ ∀ x ∈ more, Scanned.isWordPart x

/-- Whether a text spells a lexeme. -/
inductive Lexeme.Spelled : Lexeme → List Char → Prop where
  | symbol (s : Symbol) : Spelled (.symbol s) s.text.toList
  | keyword (k : Keyword) : Spelled (.keyword k) k.text.toList
  | yes : Spelled (.bool true) "true".toList
  | no : Spelled (.bool false) "false".toList
  /-- Any word that is not reserved is a name. -/
  | identifier {word : List Char} : IsWord word → (∀ k : Keyword, word ≠ k.text.toList) →
      word ≠ "true".toList → word ≠ "false".toList →
      Spelled (.identifier (String.ofList word)) word
  | int {digits : List Char} : digits ≠ [] → (∀ c ∈ digits, c.isDigit) →
      Spelled (.int (Nat.ofDigitChars 10 digits 0)) digits
  /-- A float has digits before its point, and may have some behind it. -/
  | float {whole fraction : List Char} : whole ≠ [] → (∀ c ∈ whole, c.isDigit) →
      (∀ c ∈ fraction, c.isDigit) →
      Spelled (.float (Float.ofScientific (Nat.ofDigitChars 10 (whole ++ fraction) 0) true
        fraction.length)) (whole ++ '.' :: fraction)
  /-- A string has no quote in it. -/
  | string {body : List Char} : '"' ∉ body →
      Spelled (.string (String.ofList body)) ('"' :: (body ++ ['"']))

/-- Whether the first `n` characters of a text spell the lexeme, and no more of them spell any. -/
structure Lexeme.Longest (l : Lexeme) (n : Nat) (text : List Char) : Prop where
  le_length : n ≤ text.length
  spelled : l.Spelled (text.take n)
  longest : ∀ m, n < m → m ≤ text.length → ∀ l' : Lexeme, ¬l'.Spelled (text.take m)

/-- The lexemes that start with a character, and the characters behind it. -/
inductive Lexeme.Shape : Lexeme → Char → List Char → Prop where
  | string {body : List Char} : '"' ∉ body →
      Shape (.string (String.ofList body)) '"' (body ++ ['"'])
  | single {c : Char} {s : Symbol} : Symbol.single? c = some s → Shape (.symbol s) c []
  | alone {c : Char} {p : SymbolPair} : SymbolPair.of? c = some p → Shape (.symbol p.alone) c []
  | paired {c : Char} {p : SymbolPair} :
      SymbolPair.of? c = some p → Shape (.symbol p.paired) c [p.second]
  | int {c : Char} {digits : List Char} : c.isDigit → (∀ x ∈ digits, x.isDigit) →
      Shape (.int (Nat.ofDigitChars 10 (c :: digits) 0)) c digits
  | float {c : Char} {whole fraction : List Char} : c.isDigit → (∀ x ∈ whole, x.isDigit) →
      (∀ x ∈ fraction, x.isDigit) →
      Shape (.float (Float.ofScientific (Nat.ofDigitChars 10 (c :: (whole ++ fraction)) 0) true
        fraction.length)) c (whole ++ '.' :: fraction)
  | word {c : Char} {more : List Char} :
      Scanned.isWordStart c → (∀ x ∈ more, Scanned.isWordPart x) →
      Shape (Scanned.wordLexeme (String.ofList (c :: more))) c more

/-! ## Symbols and words -/

theorem Symbol.toList_text_of_single {c : Char} {s : Symbol} (h : single? c = some s) :
    s.text.toList = [c] := by
  unfold single? at h
  split at h <;> cases h <;> rfl

theorem SymbolPair.toList_text {c : Char} {p : SymbolPair} (h : of? c = some p) :
    p.alone.text.toList = [c] ∧ p.paired.text.toList = [c, p.second] := by
  unfold of? at h
  split at h <;> cases h <;> exact ⟨rfl, rfl⟩

theorem Keyword.isWord_text (k : Keyword) : IsWord k.text.toList := by
  cases k <;> exact ⟨by decide, List.all_eq_true.mp (by decide)⟩

theorem Keyword.mem_all (k : Keyword) : k ∈ all := by
  cases k <;> decide

namespace Scanned

theorem wordLexeme_text (k : Keyword) : wordLexeme k.text = .keyword k := by
  cases k <;> decide

theorem wordLexeme_of_not_reserved {word : List Char}
    (hkeyword : ∀ k : Keyword, word ≠ k.text.toList)
    (htrue : word ≠ "true".toList) (hfalse : word ≠ "false".toList) :
    wordLexeme (String.ofList word) = .identifier (String.ofList word) := by
  have hnone : Keyword.ofText? (String.ofList word) = none := by
    refine List.find?_eq_none.mpr fun k _ hk => hkeyword k ?_
    rw [eq_of_beq hk, String.toList_ofList]
  have hne {text : String} (h : word ≠ text.toList) : String.ofList word ≠ text := by
    rintro rfl
    exact h String.toList_ofList.symm
  rw [wordLexeme, if_neg (hne htrue), if_neg (hne hfalse), hnone]

theorem spelled_wordLexeme {word : List Char} (h : IsWord word) :
    (wordLexeme (String.ofList word)).Spelled word := by
  unfold wordLexeme
  split
  · next htrue =>
    rw [← String.toList_ofList (l := word), htrue]
    exact .yes
  · next htrue =>
    split
    · next hfalse =>
      rw [← String.toList_ofList (l := word), hfalse]
      exact .no
    · next hfalse =>
      split
      · next k hk =>
        have htext := List.find?_some hk
        rw [← String.toList_ofList (l := word), ← eq_of_beq htext]
        exact .keyword k
      · next hnone =>
        refine .identifier h (fun k hk => ?_) (fun heq => ?_) (fun heq => ?_)
        · have := List.find?_eq_none.mp hnone k k.mem_all
          rw [hk, String.ofList_toList] at this
          exact this (beq_self_eq_true _)
        · exact htrue (by rw [heq, String.ofList_toList])
        · exact hfalse (by rw [heq, String.ofList_toList])

end Scanned

namespace Lexeme

/-- Every symbol is one that its first character is read as. -/
theorem exists_shape_symbol (s : Symbol) :
    ∃ c w, s.text.toList = c :: w ∧ Shape (.symbol s) c w := by
  -- the first characters of all symbols, each of one or two characters
  have hfirst : ['(', ')', '[', ']', '\x7b', '\x7d', ';', '.', ',', '=', '!', '+', '-', '*',
      '/', '%', '|', '&', '>', '<'].any fun c => Symbol.single? c = some s ||
        (SymbolPair.of? c).any fun p => p.alone = s || p.paired = s := by
    cases s <;> decide
  obtain ⟨c, _, hc⟩ := List.any_eq_true.mp hfirst
  rw [Bool.or_eq_true, decide_eq_true_eq] at hc
  rcases hc with hsingle | hpair
  · exact ⟨c, [], Symbol.toList_text_of_single hsingle, .single hsingle⟩
  · obtain ⟨p, hp, hs⟩ := (Option.any_eq_true _ _).mp hpair
    rw [Bool.or_eq_true, decide_eq_true_eq, decide_eq_true_eq] at hs
    obtain ⟨halone, hpaired⟩ := SymbolPair.toList_text hp
    rcases hs with rfl | rfl
    · exact ⟨c, [], halone, .alone hp⟩
    · exact ⟨c, [p.second], hpaired, .paired hp⟩

theorem exists_shape_word {word : List Char} (h : IsWord word) :
    ∃ c w, word = c :: w ∧ Shape (Scanned.wordLexeme (String.ofList word)) c w := by
  cases word with
  | nil => exact h.elim
  | cons c more => exact ⟨c, more, rfl, .word h.1 h.2⟩

/-- **A text spells a lexeme just if its first character starts the lexeme and the others
complete it.** -/
theorem spelled_iff_shape {l : Lexeme} {text : List Char} :
    l.Spelled text ↔ ∃ c w, text = c :: w ∧ l.Shape c w := by
  constructor
  · intro h
    cases h with
    | symbol s => exact exists_shape_symbol s
    | keyword k =>
        -- keywords and truth values are words, and are told apart from names afterwards
        rw [← Scanned.wordLexeme_text k]
        simpa using exists_shape_word k.isWord_text
    | yes => exact @exists_shape_word "true".toList ⟨by decide, List.all_eq_true.mp (by decide)⟩
    | no => exact @exists_shape_word "false".toList ⟨by decide, List.all_eq_true.mp (by decide)⟩
    | identifier hword hkeyword htrue hfalse =>
        rw [← Scanned.wordLexeme_of_not_reserved hkeyword htrue hfalse]
        exact exists_shape_word hword
    | int hne hdigits =>
        cases text with
        | nil => exact absurd rfl hne
        | cons c rest =>
            rw [List.forall_mem_cons] at hdigits
            exact ⟨c, rest, rfl, .int hdigits.1 hdigits.2⟩
    | @float whole fraction hne hwhole hfraction =>
        cases whole with
        | nil => exact absurd rfl hne
        | cons c rest =>
            rw [List.forall_mem_cons] at hwhole
            exact ⟨c, rest ++ '.' :: fraction, rfl, .float hwhole.1 hwhole.2 hfraction⟩
    | @string body hbody => exact ⟨'"', body ++ ['"'], rfl, .string hbody⟩
  · rintro ⟨c, w, rfl, h⟩
    cases h with
    | string hbody => exact .string hbody
    | @single _ s hs =>
        rw [← Symbol.toList_text_of_single hs]
        exact .symbol s
    | @alone _ p hp =>
        rw [← (SymbolPair.toList_text hp).1]
        exact .symbol p.alone
    | @paired _ p hp =>
        rw [← (SymbolPair.toList_text hp).2]
        exact .symbol p.paired
    | int hc hdigits => exact .int (List.cons_ne_nil _ _) (List.forall_mem_cons.mpr ⟨hc, hdigits⟩)
    | float hc hwhole hfraction =>
        exact .float (List.cons_ne_nil _ _) (List.forall_mem_cons.mpr ⟨hc, hwhole⟩) hfraction
    | word hc hmore => exact Scanned.spelled_wordLexeme ⟨hc, hmore⟩

theorem not_spelled_nil (l : Lexeme) : ¬l.Spelled [] := by
  intro h
  obtain ⟨c, w, heq, _⟩ := spelled_iff_shape.mp h
  cases heq

theorem spelled_cons_iff {l : Lexeme} {c : Char} {w : List Char} :
    l.Spelled (c :: w) ↔ l.Shape c w := by
  rw [spelled_iff_shape]
  constructor
  · rintro ⟨c', w', heq, h⟩
    cases heq
    exact h
  · exact fun h => ⟨c, w, rfl, h⟩

end Lexeme

/-! ## Classes of first characters -/

namespace Scanned

variable {c : Char} (cs : List Char)

theorem ofChars_single {s : Symbol} (h : Symbol.single? c = some s) :
    ofChars c cs = ⟨.ok (.symbol s), 0⟩ := by
  have hc : c ≠ '"' := by
    rintro rfl
    cases h
  rw [ofChars, if_neg hc, h]

theorem ofChars_pair {p : SymbolPair} (h : SymbolPair.of? c = some p) :
    ofChars c cs = if cs.head? = some p.second then ⟨.ok (.symbol p.paired), 1⟩
      else ⟨.ok (.symbol p.alone), 0⟩ := by
  have hc : c ≠ '"' := by
    rintro rfl
    cases h
  have hsingle : Symbol.single? c = none := by
    unfold Symbol.single?
    split <;> first | rfl | cases h
  rw [ofChars, if_neg hc, hsingle, h]

/-- Digits and letters are no symbols. -/
theorem ofChars_alphanum (h : isWordPart c) :
    ofChars c cs = if c.isDigit then number c cs else if isWordStart c then word c cs
      else ⟨.error (.badCharacter c), 0⟩ := by
  have hc : c ≠ '"' := by
    rintro rfl
    cases h
  have hsingle : Symbol.single? c = none := by
    unfold Symbol.single?
    split <;> first | rfl | cases h
  have hpair : SymbolPair.of? c = none := by
    unfold SymbolPair.of?
    split <;> first | rfl | cases h
  rw [ofChars, if_neg hc, hsingle, hpair]

theorem ofChars_digit (h : c.isDigit) : ofChars c cs = number c cs := by
  have hpart : isWordPart c := by simp [isWordPart, Char.isAlphanum, h]
  rw [ofChars_alphanum cs hpart, if_pos h]

theorem isDigit_eq_false_of_isWordStart (h : isWordStart c) : c.isDigit = false := by
  rw [isWordStart, Bool.or_eq_true, beq_iff_eq] at h
  rcases h with rfl | h
  · rfl
  · -- by their code points, the digits lie below all letters
    have hbounds : '0'.val.toNat = 48 ∧ '9'.val.toNat = 57 ∧ 'A'.val.toNat = 65 ∧
        'a'.val.toNat = 97 := ⟨rfl, rfl, rfl, rfl⟩
    delta Char.isAlpha Char.isUpper Char.isLower at h
    simp only [Bool.or_eq_true, Bool.and_eq_true, decide_eq_true_eq, ge_iff_le,
      UInt32.le_iff_toNat_le] at h
    simp only [Char.isDigit, ge_iff_le, UInt32.le_iff_toNat_le, Bool.and_eq_false_iff,
      decide_eq_false_iff_not]
    omega

theorem ofChars_word (h : isWordStart c) : ofChars c cs = word c cs := by
  have hpart : isWordPart c := by
    rw [isWordStart, Bool.or_eq_true] at h
    rw [isWordPart, Char.isAlphanum, Bool.or_eq_true, Bool.or_eq_true]
    exact h.imp_right Or.inl
  rw [ofChars_alphanum cs hpart, isDigit_eq_false_of_isWordStart h, if_neg Bool.false_ne_true,
    if_pos h]

/-- The first character is of one of these classes, or nothing starts with it. -/
theorem first_cases (c : Char) :
    c = '"' ∨ (∃ s, Symbol.single? c = some s) ∨ (∃ p, SymbolPair.of? c = some p) ∨ c.isDigit ∨
      isWordStart c ∨ (c ≠ '"' ∧ ∀ cs, ofChars c cs = ⟨.error (.badCharacter c), 0⟩) := by
  by_cases hquote : c = '"'
  · exact .inl hquote
  cases hsingle : Symbol.single? c with
  | some s => exact .inr (.inl ⟨s, rfl⟩)
  | none =>
      cases hpair : SymbolPair.of? c with
      | some p => exact .inr (.inr (.inl ⟨p, rfl⟩))
      | none =>
          by_cases hdigit : c.isDigit
          · exact .inr (.inr (.inr (.inl hdigit)))
          by_cases hword : isWordStart c
          · exact .inr (.inr (.inr (.inr (.inl hword))))
          refine .inr (.inr (.inr (.inr (.inr ⟨hquote, fun cs => ?_⟩))))
          rw [ofChars, if_neg hquote, hsingle, hpair, if_neg hdigit, if_neg hword]

end Scanned

/-! ## What is read is a lexeme -/

theorem Text.Decimal.value_eq (cs : List Char) : value cs = Nat.ofDigitChars 10 cs 0 := by
  fun_induction value cs with
  | case1 cs h => rfl
  | case2 cs h ihfront ihback =>
      have hlength : (cs.drop (cs.length - cs.length / 2)).length = cs.length / 2 := by
        rw [List.length_drop]
        omega
      -- the digits are read in two halves, of which the front one is moved up
      have hcut : Nat.ofDigitChars 10 (cs.take (cs.length - cs.length / 2) ++
          cs.drop (cs.length - cs.length / 2)) 0 = Nat.ofDigitChars 10 cs 0 := by
        rw [List.take_append_drop]
      rw [ihfront, ihback, ← hcut, Nat.ofDigitChars_append,
        @Nat.ofDigitChars_eq_ofDigitChars_zero _ (Nat.ofDigitChars 10 _ 0), hlength, Nat.pow_eq,
        Nat.mul_comm]

namespace Scanned

section Runs

variable {p : Char → Bool} {front rest : List Char}

theorem exists_run (p : Char → Bool) (cs : List Char) :
    ∃ front rest, cs = front ++ rest ∧ (∀ x ∈ front, p x) ∧ ∀ x ∈ rest.head?, p x = false := by
  refine ⟨cs.takeWhile p, cs.dropWhile p, List.takeWhile_append_dropWhile.symm,
    List.all_eq_true.mp List.all_takeWhile, fun x hx => ?_⟩
  have hstop := List.head?_dropWhile_not p cs
  rw [Option.mem_def.mp hx] at hstop
  exact hstop

theorem takeWhile_run (hfront : ∀ x ∈ front, p x) (hrest : ∀ x ∈ rest.head?, p x = false) :
    (front ++ rest).takeWhile p = front := by
  rw [List.takeWhile_append_of_pos hfront]
  cases rest with
  | nil => exact List.append_nil front
  | cons x xs =>
      have hx := hrest x rfl
      rw [List.takeWhile_cons_of_neg (by rw [hx]; exact Bool.false_ne_true), List.append_nil]

end Runs

variable {c : Char} {body whole fraction more rest : List Char}

theorem string_closed (h : '"' ∉ body) :
    string (body ++ '"' :: rest) = ⟨.ok (.string (String.ofList body)), body.length + 1⟩ := by
  have hbody : (body ++ '"' :: rest).takeWhile (· ≠ '"') = body := by
    refine takeWhile_run (fun x hx => decide_eq_true ?_) (fun x hx => ?_)
    · rintro rfl
      exact h hx
    · cases hx
      rfl
  have hlt : body.length < (body ++ '"' :: rest).length := by simp
  simp only [string, hbody]
  rw [if_pos hlt]

theorem string_open (h : '"' ∉ rest) :
    string rest = ⟨.error .unterminatedString, rest.length⟩ := by
  have hrest : (rest ++ []).takeWhile (· ≠ '"') = rest := by
    refine takeWhile_run (fun x hx => decide_eq_true ?_) nofun
    rintro rfl
    exact h hx
  rw [List.append_nil] at hrest
  simp only [string, hrest]
  rw [if_neg (Nat.lt_irrefl _)]

theorem number_float (hwhole : ∀ x ∈ whole, x.isDigit) (hfraction : ∀ x ∈ fraction, x.isDigit)
    (hrest : ∀ x ∈ rest.head?, x.isDigit = false) :
    number c (whole ++ '.' :: (fraction ++ rest)) =
      ⟨.ok (.float (Float.ofScientific (Nat.ofDigitChars 10 (c :: (whole ++ fraction)) 0) true
        fraction.length)), whole.length + 1 + fraction.length⟩ := by
  have hdigits : (whole ++ '.' :: (fraction ++ rest)).takeWhile Char.isDigit = whole :=
    takeWhile_run hwhole fun x hx => by cases hx; rfl
  simp only [number, hdigits, List.drop_left, takeWhile_run hfraction hrest,
    Text.Decimal.value_eq, List.cons_append]

theorem number_int (hwhole : ∀ x ∈ whole, x.isDigit)
    (hrest : ∀ x ∈ rest.head?, x.isDigit = false) (hpoint : rest.head? ≠ some '.') :
    number c (whole ++ rest) =
      ⟨.ok (.int (Nat.ofDigitChars 10 (c :: whole) 0)), whole.length⟩ := by
  simp only [number, takeWhile_run hwhole hrest, List.drop_left, Text.Decimal.value_eq]
  split
  · exact absurd rfl hpoint
  · rfl

/-- Behind the digits at the start of a number there is a point or the number ends. -/
theorem number_cases (c : Char) (hwhole : ∀ x ∈ whole, x.isDigit)
    (hrest : ∀ x ∈ rest.head?, x.isDigit = false) :
    number c (whole ++ rest) =
        ⟨.ok (.int (Nat.ofDigitChars 10 (c :: whole) 0)), whole.length⟩ ∨
      ∃ fraction rest', rest = '.' :: (fraction ++ rest') ∧ (∀ x ∈ fraction, x.isDigit) ∧
        number c (whole ++ rest) =
          ⟨.ok (.float (Float.ofScientific (Nat.ofDigitChars 10 (c :: (whole ++ fraction)) 0) true
            fraction.length)), whole.length + 1 + fraction.length⟩ := by
  by_cases hpoint : rest.head? = some '.'
  · obtain ⟨after, rfl⟩ := List.head?_eq_some_iff.mp hpoint
    obtain ⟨fraction, rest', rfl, hfraction, hrest'⟩ := exists_run Char.isDigit after
    exact .inr ⟨fraction, rest', rfl, hfraction, number_float hwhole hfraction hrest'⟩
  · exact .inl (number_int hwhole hrest hpoint)

theorem word_eq (hmore : ∀ x ∈ more, isWordPart x)
    (hrest : ∀ x ∈ rest.head?, isWordPart x = false) :
    word c (more ++ rest) = ⟨.ok (wordLexeme (String.ofList (c :: more))), more.length⟩ := by
  simp only [word, takeWhile_run hmore hrest]

/-- **What is read has the shape of a lexeme.** -/
theorem shape_of_ofChars {cs : List Char} {l : Lexeme} {k : Nat} (h : ofChars c cs = ⟨.ok l, k⟩) :
    ∃ w rest, cs = w ++ rest ∧ k = w.length ∧ l.Shape c w := by
  rcases first_cases c with rfl | ⟨s, hs⟩ | ⟨p, hp⟩ | hdigit | hword | ⟨_, hbad⟩
  · -- a string, if there is a second quote at all
    have hstring : string cs = ⟨.ok l, k⟩ := h
    by_cases hquote : '"' ∈ cs
    · obtain ⟨body, rest, rfl, hbody⟩ := List.eq_append_cons_of_mem hquote
      rw [string_closed hbody] at hstring
      cases hstring
      exact ⟨body ++ ['"'], rest, by simp, by simp, .string hbody⟩
    · rw [string_open hquote] at hstring
      cases hstring
  · rw [ofChars_single cs hs] at h
    cases h
    exact ⟨[], cs, rfl, rfl, .single hs⟩
  · rw [ofChars_pair cs hp] at h
    split at h
    · next hsecond =>
      obtain ⟨rest, rfl⟩ := List.head?_eq_some_iff.mp hsecond
      cases h
      exact ⟨[p.second], rest, rfl, rfl, .paired hp⟩
    · cases h
      exact ⟨[], cs, rfl, rfl, .alone hp⟩
  · rw [ofChars_digit cs hdigit] at h
    obtain ⟨whole, rest, rfl, hwhole, hrest⟩ := exists_run Char.isDigit cs
    rcases number_cases c hwhole hrest with hint | ⟨fraction, rest', rfl, hfraction, hfloat⟩
    · rw [hint] at h
      cases h
      exact ⟨whole, rest, rfl, rfl, .int hdigit hwhole⟩
    · rw [hfloat] at h
      cases h
      exact ⟨whole ++ '.' :: fraction, rest', by simp, by simp; omega,
        .float hdigit hwhole hfraction⟩
  · rw [ofChars_word cs hword] at h
    obtain ⟨more, rest, rfl, hmore, hrest⟩ := exists_run isWordPart cs
    rw [word_eq hmore hrest] at h
    cases h
    exact ⟨more, rest, rfl, rfl, .word hword hmore⟩
  · rw [hbad] at h
    cases h

/-- **No lexeme that is there is missed.** Where the text goes on with a lexeme, one that is at
least as long is read, and it is the same one if it is as long. -/
theorem ofChars_of_shape {l : Lexeme} {w : List Char} (h : l.Shape c w) (rest : List Char) :
    ∃ l' k, ofChars c (w ++ rest) = ⟨.ok l', k⟩ ∧ w.length ≤ k ∧ (k = w.length → l' = l) := by
  cases h with
  | @string body hbody =>
      refine ⟨.string (String.ofList body), body.length + 1, ?_, ?_, fun _ => rfl⟩
      · show string (body ++ ['"'] ++ rest) = _
        rw [List.append_assoc]
        exact string_closed hbody
      · simp
  | single hs => exact ⟨_, _, ofChars_single rest hs, Nat.le_refl 0, fun _ => rfl⟩
  | @alone _ p hp =>
      rw [List.nil_append, ofChars_pair rest hp]
      split
      · -- the second character is there, so the pair is read, which is longer
        exact ⟨_, _, rfl, Nat.zero_le 1, nofun⟩
      · exact ⟨_, _, rfl, Nat.le_refl 0, fun _ => rfl⟩
  | @paired _ p hp =>
      rw [ofChars_pair _ hp]
      exact ⟨_, _, if_pos rfl, Nat.le_refl 1, fun _ => rfl⟩
  | int hc hdigits =>
      -- The digits of the lexeme may go on, and a point may follow.
      obtain ⟨further, rest', rfl, hfurther, hrest⟩ := exists_run Char.isDigit rest
      have hall : ∀ x ∈ w ++ further, x.isDigit := by
        intro x hx
        exact (List.mem_append.mp hx).elim (hdigits x) (hfurther x)
      rw [ofChars_digit _ hc, ← List.append_assoc]
      rcases number_cases c hall hrest with hint | ⟨fraction, _, _, _, hfloat⟩
      · refine ⟨_, _, hint, by simp, fun hlength => ?_⟩
        have hnil : further = [] := by simpa using hlength
        rw [hnil, List.append_nil]
      · refine ⟨_, _, hfloat, by simp; omega, fun hlength => ?_⟩
        rw [List.length_append] at hlength
        omega
  | @float _ whole fraction hc hwhole hfraction =>
      obtain ⟨further, rest', rfl, hfurther, hrest⟩ := exists_run Char.isDigit rest
      have hall : ∀ x ∈ fraction ++ further, x.isDigit := by
        intro x hx
        exact (List.mem_append.mp hx).elim (hfraction x) (hfurther x)
      -- behind the point only digits can go on
      have htext : whole ++ '.' :: fraction ++ (further ++ rest') =
          whole ++ '.' :: (fraction ++ further ++ rest') := by simp
      rw [ofChars_digit _ hc, htext]
      refine ⟨_, _, number_float hwhole hall hrest, by simp; omega, fun hlength => ?_⟩
      have hnil : further = [] := by
        simp at hlength
        exact List.length_eq_zero_iff.mp (by omega)
      rw [hnil, List.append_nil]
  | word hc hmore =>
      obtain ⟨further, rest', rfl, hfurther, hrest⟩ := exists_run isWordPart rest
      have hall : ∀ x ∈ w ++ further, isWordPart x := by
        intro x hx
        exact (List.mem_append.mp hx).elim (hmore x) (hfurther x)
      rw [ofChars_word _ hc, ← List.append_assoc]
      refine ⟨_, _, word_eq hall hrest, by simp, fun hlength => ?_⟩
      have hnil : further = [] := by simpa using hlength
      rw [hnil, List.append_nil]

/-- **What is read at a place is the longest lexeme that starts there.** -/
theorem ofChars_eq_ok_iff {cs : List Char} {l : Lexeme} {k : Nat} :
    ofChars c cs = ⟨.ok l, k⟩ ↔ l.Longest (k + 1) (c :: cs) := by
  -- what is spelled at the start is not missed, and what is read is spelled there
  have hmiss {l' : Lexeme} {m : Nat} (hm : m ≤ cs.length)
      (hspelled : l'.Spelled (c :: cs.take m)) :
      ∃ l k, ofChars c cs = ⟨.ok l, k⟩ ∧ m ≤ k ∧ (k = m → l = l') := by
    have h := ofChars_of_shape (Lexeme.spelled_cons_iff.mp hspelled) (cs.drop m)
    rwa [List.take_append_drop, List.length_take_of_le hm] at h
  have hsound {l : Lexeme} {k : Nat} (h : ofChars c cs = ⟨.ok l, k⟩) :
      k ≤ cs.length ∧ l.Spelled (c :: cs.take k) := by
    obtain ⟨w, rest, rfl, rfl, hshape⟩ := shape_of_ofChars h
    rw [List.take_left]
    exact ⟨by simp, Lexeme.spelled_cons_iff.mpr hshape⟩
  constructor
  · intro h
    obtain ⟨hk, hspelled⟩ := hsound h
    refine ⟨Nat.succ_le_succ hk, hspelled, fun m hlt hm l' hlonger => ?_⟩
    obtain ⟨m, rfl⟩ : ∃ n, m = n + 1 := ⟨m - 1, by omega⟩
    obtain ⟨_, _, hread, hle, _⟩ := hmiss (Nat.le_of_succ_le_succ hm) hlonger
    rw [h] at hread
    cases hread
    omega
  · intro h
    obtain ⟨l', k', hread, hle, hsame⟩ := hmiss (Nat.le_of_succ_le_succ h.le_length) h.spelled
    obtain ⟨hk', hspelled⟩ := hsound hread
    -- a longer one than the longest cannot have been read
    have heq : k' = k := by
      by_cases hlt : k < k'
      · exact absurd hspelled
          (h.longest (k' + 1) (Nat.succ_lt_succ hlt) (Nat.succ_le_succ hk') l')
      · omega
    rw [hread, hsame heq, heq]

/-- **Where no lexeme is read, none starts**: there is a string that is never closed, or a
character that starts nothing. -/
theorem ofChars_error {cs : List Char} {cause : ParseError.Cause} {k : Nat}
    (h : ofChars c cs = ⟨.error cause, k⟩) :
    (cause = .unterminatedString ∧ k = cs.length ∧ c = '"' ∧ '"' ∉ cs) ∨
      (cause = .badCharacter c ∧ k = 0 ∧ c ≠ '"' ∧ ∀ (l : Lexeme) w, ¬l.Spelled (c :: w)) := by
  -- a lexeme of one character would have been read
  have hnone (l : Lexeme) : ¬l.Shape c [] := by
    intro hshape
    obtain ⟨l', k', hok, _⟩ := ofChars_of_shape hshape cs
    rw [List.nil_append, h] at hok
    cases hok
  rcases first_cases c with rfl | ⟨s, hs⟩ | ⟨p, hp⟩ | hdigit | hword | ⟨hquote, hbad⟩
  · have hstring : string cs = ⟨.error cause, k⟩ := h
    by_cases hmem : '"' ∈ cs
    · obtain ⟨body, rest, rfl, hbody⟩ := List.eq_append_cons_of_mem hmem
      rw [string_closed hbody] at hstring
      cases hstring
    · rw [string_open hmem] at hstring
      cases hstring
      exact .inl ⟨rfl, rfl, rfl, hmem⟩
  · exact absurd (.single hs) (hnone _)
  · exact absurd (.alone hp) (hnone _)
  · exact absurd (.int hdigit nofun) (hnone _)
  · exact absurd (.word hword nofun) (hnone _)
  · rw [hbad] at h
    cases h
    refine .inr ⟨rfl, rfl, hquote, fun l w hspelled => ?_⟩
    obtain ⟨l', k', hok, _⟩ := ofChars_of_shape (Lexeme.spelled_cons_iff.mp hspelled) []
    rw [hbad] at hok
    cases hok

end Scanned

end Stepwise
