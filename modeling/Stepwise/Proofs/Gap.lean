import Stepwise.Proofs.Spelling

/-!
# Gaps between lexemes

`Blanks` says which texts are passed over: blanks, and comments that run up to a line feed or
the end of the text. A gap is the longest such text at its place, behind which neither a blank
nor a comment starts (`Cursor.skipGap_eq_iff`).

One call of the reader passes a gap and then takes what is there (`Cursor.next?_cases`). The facts
about calls that follow say so without the functions that do it, and what is known about the
tokens of a text comes from these.
-/

namespace Stepwise

/-! ## Blanks and comments -/

/-- Whether a text consists of blanks and comments, in front of the text that follows. -/
inductive Blanks : List Char → List Char → Prop where
  | nil {rest : List Char} : Blanks [] rest
  | blank {c : Char} {skipped rest : List Char} :
      Scanned.isGap c → Blanks skipped rest → Blanks (c :: skipped) rest
  /-- A comment ends where its line or the text does. -/
  | comment {body skipped rest : List Char} :
      '\n' ∉ body → (∀ c ∈ (skipped ++ rest).head?, c = '\n') → Blanks skipped rest →
      Blanks ('/' :: '/' :: (body ++ skipped)) rest

/-- Whether neither a blank nor a comment is at the start of a text. -/
structure Stops (text : List Char) : Prop where
  blank : ∀ c ∈ text.head?, Scanned.isGap c = false
  comment : ¬['/', '/'] <+: text

theorem slashes_prefix_iff {c : Char} {cs : List Char} :
    ['/', '/'] <+: c :: cs ↔ c = '/' ∧ cs.head? = some '/' := by
  rw [List.cons_prefix_cons]
  cases cs <;> simp [eq_comm]

/-- What is passed over depends on the first character behind it only. -/
theorem Blanks.congr {skipped rest rest' : List Char} (h : Blanks skipped rest)
    (hhead : rest'.head? = rest.head?) : Blanks skipped rest' := by
  induction h with
  | nil => exact .nil
  | blank hc _ ih => exact .blank hc (ih hhead)
  | @comment body skipped rest hbody hend _ ih =>
      refine .comment hbody ?_ (ih hhead)
      rwa [List.head?_append, hhead, ← List.head?_append]

namespace Cursor

/-- A comment is passed up to the end of its line. -/
theorem skipGap_comment {body rest : List Char} (offset : Nat) (hbody : '\n' ∉ body)
    (hrest : ∀ c ∈ rest.head?, c = '\n') :
    skipGap true offset (body ++ rest) = skipGap false (offset + body.length) rest := by
  induction body generalizing offset with
  | nil =>
      cases rest with
      | nil => rfl
      | cons c rest =>
          -- the line feed ends the comment, and is itself a blank
          obtain rfl := hrest c rfl
          rfl
  | cons c body ih =>
      rw [List.mem_cons, not_or] at hbody
      have hc : (c != '\n') = true := bne_iff_ne.mpr (Ne.symm hbody.1)
      rw [List.cons_append, skipGap, if_pos rfl, hc, ih _ hbody.2, List.length_cons]
      congr 1
      omega

theorem skipGap_of_stops {text : List Char} (offset : Nat) (h : Stops text) :
    skipGap false offset text = ⟨offset, text⟩ := by
  cases text with
  | nil => rfl
  | cons c cs =>
      have hblank : Scanned.isGap c = false := h.blank c rfl
      have hcomment : ¬((c = '/' && cs.head? = some '/') = true) := by
        rw [Bool.and_eq_true, decide_eq_true_eq, decide_eq_true_eq]
        exact fun heq => h.comment (slashes_prefix_iff.mpr heq)
      rw [skipGap, if_neg Bool.false_ne_true, hblank, if_neg Bool.false_ne_true, if_neg hcomment]

/-- Blanks and comments are passed. -/
theorem skipGap_of_blanks {skipped rest : List Char} (offset : Nat) (h : Blanks skipped rest) :
    skipGap false offset (skipped ++ rest) = skipGap false (offset + skipped.length) rest := by
  induction h generalizing offset with
  | nil => rfl
  | blank hc _ ih =>
      rw [List.cons_append, skipGap, if_neg Bool.false_ne_true, if_pos hc, ih, List.length_cons]
      congr 1
      omega
  | @comment body skipped rest hbody hend _ ih =>
      -- two slashes switch the skipping to comments
      have hopen : skipGap false offset ('/' :: '/' :: (body ++ skipped) ++ rest) =
          skipGap true (offset + 2) (body ++ (skipped ++ rest)) := by
        rw [← List.append_assoc]
        rfl
      rw [hopen, skipGap_comment _ hbody hend, ih]
      congr 1
      simp only [List.length_cons, List.length_append]
      omega

/-- Something is passed, and then there is neither a blank nor a comment. -/
theorem exists_skipped (text : List Char) :
    ∃ skipped rest, text = skipped ++ rest ∧ Blanks skipped rest ∧ Stops rest := by
  -- The induction is on the length, since a comment is passed as a whole.
  induction hlength : text.length using Nat.strongRecOn generalizing text with
  | ind n ih =>
      cases text with
      | nil => exact ⟨[], [], rfl, .nil, ⟨nofun, by simp⟩⟩
      | cons c cs =>
          rw [List.length_cons] at hlength
          by_cases hgap : Scanned.isGap c
          · obtain ⟨skipped, rest, rfl, hblanks, hstops⟩ := ih cs.length (by omega) cs rfl
            exact ⟨c :: skipped, rest, rfl, .blank hgap hblanks, hstops⟩
          by_cases hcomment : ['/', '/'] <+: c :: cs
          · -- the comment runs up to the next line feed, from where the shorter text is skipped
            obtain ⟨rfl, hhead⟩ := slashes_prefix_iff.mp hcomment
            obtain ⟨after, rfl⟩ := List.head?_eq_some_iff.mp hhead
            obtain ⟨body, line, rfl, hbody, hline⟩ := Scanned.exists_run (· ≠ '\n') after
            have hshorter : line.length < n := by
              simp only [List.length_cons, List.length_append] at hlength
              omega
            obtain ⟨skipped, rest, rfl, hblanks, hstops⟩ := ih line.length hshorter line rfl
            refine ⟨'/' :: '/' :: (body ++ skipped), rest, by simp, .comment ?_ ?_ hblanks, hstops⟩
            · exact fun hmem => of_decide_eq_true (hbody _ hmem) rfl
            · exact fun x hx => Decidable.not_not.mp (of_decide_eq_false (hline x hx))
          -- neither starts here, so nothing is skipped
          refine ⟨[], c :: cs, rfl, .nil, fun x hx => ?_, hcomment⟩
          cases hx
          exact eq_false_of_ne_true hgap

/-- **A gap is all there is of blanks and comments.** -/
theorem skipGap_eq_iff {offset : Nat} {text : List Char} {cur : Cursor} :
    skipGap false offset text = cur ↔
      ∃ skipped, text = skipped ++ cur.rest ∧ cur.offset = offset + skipped.length ∧
        Blanks skipped cur.rest ∧ Stops cur.rest := by
  constructor
  · rintro rfl
    obtain ⟨skipped, rest, rfl, hblanks, hstops⟩ := exists_skipped text
    rw [skipGap_of_blanks offset hblanks, skipGap_of_stops _ hstops]
    exact ⟨skipped, rfl, rfl, hblanks, hstops⟩
  · rintro ⟨skipped, rfl, hoffset, hblanks, hstops⟩
    rw [skipGap_of_blanks offset hblanks, skipGap_of_stops _ hstops, ← hoffset]

end Cursor

/-! ## One call -/

/-- What is at the start of a text, and over how many characters: a token for the longest lexeme,
or the error that none starts there, or that a string is never closed. -/
inductive Reads : Except ParseError Token → Nat → List Char → Prop where
  | token {token : Token} {n : Nat} {text : List Char} :
      token.lexeme.Longest n text → Reads (.ok token) n text
  | badCharacter {c : Char} {span : Span} {rest : List Char} :
      c ≠ '"' → (∀ (l : Lexeme) w, ¬l.Spelled (c :: w)) →
      Reads (.error ⟨.badCharacter c, span⟩) 1 (c :: rest)
  | unterminatedString {span : Span} {body : List Char} :
      '"' ∉ body → Reads (.error ⟨.unterminatedString, span⟩) (body.length + 1) ('"' :: body)

/-- The place of a token or of an error. -/
def place : Except ParseError Token → Span
  | .ok token => token.span
  | .error err => err.span

theorem Reads.bounds {found : Except ParseError Token} {n : Nat} {text : List Char}
    (h : Reads found n text) : 0 < n ∧ n ≤ text.length := by
  cases h with
  | token hlongest =>
      refine ⟨Nat.pos_of_ne_zero ?_, hlongest.le_length⟩
      rintro rfl
      exact Lexeme.not_spelled_nil _ hlongest.spelled
  | badCharacter | unterminatedString => simp

namespace Cursor

/-- A lexeme or a cause behind a gap makes a token or an error at its place. -/
theorem next?_of_scanned {cur : Cursor} {offset extra : Nat} {c : Char} {cs : List Char}
    {content : Except ParseError.Cause Lexeme}
    (hskip : skipGap false cur.offset cur.rest = ⟨offset, c :: cs⟩)
    (hscanned : Scanned.ofChars c cs = ⟨content, extra⟩) :
    cur.next? = some ((content.mapError (⟨·, .ofLength offset (extra + 1)⟩)).map
        (⟨·, .ofLength offset (extra + 1)⟩),
      ⟨offset + (extra + 1), (c :: cs).drop (extra + 1)⟩) := by
  rw [next?, hskip]
  simp only [hscanned, Nat.add_comm 1 extra, List.drop_succ_cons]
  cases content <;> rfl

/-- Something is found behind a gap, unless the text ends there. -/
theorem next?_of_skipGap {cur : Cursor} {offset : Nat} {c : Char} {cs : List Char}
    (h : skipGap false cur.offset cur.rest = ⟨offset, c :: cs⟩) :
    ∃ found n, cur.next? = some (found, ⟨(place found).stop, (c :: cs).drop n⟩) ∧
      Reads found n (c :: cs) ∧ place found = .ofLength offset n := by
  cases hscanned : Scanned.ofChars c cs with
  | mk content extra =>
      cases content with
      | ok l =>
          exact ⟨_, extra + 1, next?_of_scanned h hscanned,
            .token (Scanned.ofChars_eq_ok_iff.mp hscanned), rfl⟩
      | error cause =>
          refine ⟨_, extra + 1, next?_of_scanned h hscanned, ?_, rfl⟩
          -- there are only two causes: a string left open, and a character that starts no lexeme
          rcases Scanned.ofChars_error hscanned with
            ⟨rfl, rfl, rfl, hopen⟩ | ⟨rfl, rfl, hquote, hnone⟩
          · exact .unterminatedString hopen
          · exact .badCharacter hquote hnone

/-- **A call passes a gap.** Behind it the text ends, or the call takes what is there. -/
theorem next?_cases (cur : Cursor) :
    (cur.next? = none ∧ Blanks cur.rest []) ∨
      ∃ found skipped text n, cur.next? = some (found, ⟨(place found).stop, text.drop n⟩) ∧
        cur.rest = skipped ++ text ∧ Blanks skipped text ∧ Stops text ∧ Reads found n text ∧
        place found = .ofLength (cur.offset + skipped.length) n := by
  obtain ⟨skipped, text, hrest, hblanks, hstops⟩ := exists_skipped cur.rest
  have hskip : skipGap false cur.offset cur.rest = ⟨cur.offset + skipped.length, text⟩ :=
    skipGap_eq_iff.mpr ⟨skipped, hrest, rfl, hblanks, hstops⟩
  cases text with
  | nil =>
      refine .inl ⟨?_, ?_⟩
      · rw [next?, hskip]
      · rw [hrest, List.append_nil]
        exact hblanks
  | cons c cs =>
      obtain ⟨found, n, hnext, hreads, hplace⟩ := next?_of_skipGap hskip
      exact .inr ⟨found, skipped, c :: cs, n, hnext, hrest, hblanks, hstops, hreads, hplace⟩

theorem exists_reads {cur after : Cursor} {found : Except ParseError Token}
    (h : cur.next? = some (found, after)) :
    ∃ skipped text n, cur.rest = skipped ++ text ∧ Blanks skipped text ∧ Stops text ∧
      Reads found n text ∧ place found = .ofLength (cur.offset + skipped.length) n ∧
      after = ⟨(place found).stop, text.drop n⟩ := by
  rcases next?_cases cur with
    ⟨hnone, _⟩ | ⟨found', skipped, text, n, hnext, hrest, hblanks, hstops, hreads, hplace⟩
  · rw [h] at hnone
    cases hnone
  · rw [h] at hnext
    cases hnext
    exact ⟨skipped, text, n, hrest, hblanks, hstops, hreads, hplace, rfl⟩

/-- A call gives a token just if the longest lexeme behind the gap is that of the token. -/
theorem next?_eq_token_iff {cur after : Cursor} {token : Token} :
    cur.next? = some (.ok token, after) ↔
      ∃ skipped text n, cur.rest = skipped ++ text ∧ Blanks skipped text ∧ Stops text ∧
        token.lexeme.Longest n text ∧ token.span = .ofLength (cur.offset + skipped.length) n ∧
        after = ⟨token.span.stop, text.drop n⟩ := by
  constructor
  · intro h
    obtain ⟨skipped, text, n, hrest, hblanks, hstops, hreads, hplace, hafter⟩ := exists_reads h
    cases hreads with
    | token hlongest => exact ⟨skipped, text, n, hrest, hblanks, hstops, hlongest, hplace, hafter⟩
  · rintro ⟨skipped, text, n, hrest, hblanks, hstops, hlongest, hspan, rfl⟩
    have hskip : skipGap false cur.offset cur.rest = ⟨cur.offset + skipped.length, text⟩ :=
      skipGap_eq_iff.mpr ⟨skipped, hrest, rfl, hblanks, hstops⟩
    -- a lexeme is not empty, so there is a first character to scan from
    obtain ⟨hpos, hle⟩ := (Reads.token hlongest).bounds
    obtain ⟨c, cs, rfl⟩ := List.exists_cons_of_length_pos (Nat.lt_of_lt_of_le hpos hle)
    obtain ⟨extra, rfl⟩ : ∃ extra, n = extra + 1 := ⟨n - 1, by omega⟩
    obtain ⟨l, span⟩ := token
    obtain rfl : span = .ofLength (cur.offset + skipped.length) (extra + 1) := hspan
    exact next?_of_scanned hskip (Scanned.ofChars_eq_ok_iff.mpr hlongest)

theorem skipGap_to_end {rest : List Char} (offset : Nat) (h : Blanks rest []) :
    skipGap false offset rest = ⟨offset + rest.length, []⟩ :=
  skipGap_eq_iff.mpr ⟨rest, (List.append_nil rest).symm, rfl, h, nofun, by simp⟩

/-- At the end of a text there are only blanks and comments left. -/
theorem next?_eq_none_iff {cur : Cursor} : cur.next? = none ↔ Blanks cur.rest [] := by
  constructor
  · intro h
    rcases next?_cases cur with ⟨_, hblanks⟩ | ⟨_, _, _, _, hnext, _⟩
    · exact hblanks
    · rw [h] at hnext
      cases hnext
  · intro h
    rw [next?, skipGap_to_end cur.offset h]

end Cursor

end Stepwise
