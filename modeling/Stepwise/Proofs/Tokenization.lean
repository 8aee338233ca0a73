import Stepwise.Proofs.Gap

/-!
# Every character is accounted for

The tokens and errors of a text are non-empty stretches of it, one behind the other, and what
lies between them are blanks and comments. `Account` says this of the text from an offset on.
What is found from a cursor on begins with a gap and one thing, and goes on from the cursor
behind that (`Account.cons`), so that the account of all (`Cursor.account_scan`) follows the
recursion of the reader.

A reader may also be called again and again. `Source.answer` says what it answers then: what is
found, in order, and then for ever that the text is at its end (`Cursor.answer_eq`).
-/

namespace Stepwise

/-! ## Accounts -/

/-- Whether the stretch is a comment: from `//` to the end of the line or of the text. -/
structure IsComment (text : List Char) (span : Span) : Prop where
  opened : ['/', '/'] <+: text.drop span.start
  line : ∀ i, span.start ≤ i → i < span.stop → text[i]? ≠ some '\n'
  stop_le : span.stop ≤ text.length
  closed : ∀ c ∈ text[span.stop]?, c = '\n'

/-- Whether an offset lies in a span. -/
def Span.Covers (span : Span) (i : Nat) : Prop := span.start ≤ i ∧ i < span.stop

/-- What is found in a text from an offset on. -/
structure Account (text : List Char) (first : Nat) (found : List (Except ParseError Token)) :
    Prop where
  /-- Each has a place in the text that is not empty. -/
  placed : ∀ f ∈ found, first ≤ (place f).start ∧ (place f).start < (place f).stop ∧
    (place f).stop ≤ text.length
  /-- The places are in order, and no two overlap. -/
  ordered : found.Pairwise fun a b => (place a).stop ≤ (place b).start
  /-- What is at a place is the longest lexeme there, or an error; no blank and no comment. -/
  reads : ∀ f ∈ found, Reads f ((place f).stop - (place f).start) (text.drop (place f).start) ∧
    Stops (text.drop (place f).start)
  /-- Outside of the places there are blanks, and comments that lie outside of them altogether. -/
  outside : ∀ i, first ≤ i → i < text.length → (∀ f ∈ found, ¬(place f).Covers i) →
    (∃ c ∈ [' ', '\t', '\r', '\n'], text[i]? = some c) ∨
      ∃ comment, IsComment text comment ∧ comment.Covers i ∧ first ≤ comment.start ∧
        ∀ j, comment.Covers j → ∀ f ∈ found, ¬(place f).Covers j

theorem mem_blanks_of_isGap {c : Char} (h : Scanned.isGap c) : c ∈ [' ', '\t', '\r', '\n'] := by
  simpa [Scanned.isGap, or_assoc] using h

/-- A line from `//` on is a comment, wherever it stands. -/
theorem isComment_of_append (front : List Char) {line after : List Char}
    (hopened : ['/', '/'] <+: line) (hline : '\n' ∉ line) (hafter : ∀ c ∈ after.head?, c = '\n') :
    IsComment (front ++ (line ++ after)) (.ofLength front.length line.length) where
  opened := by
    rw [Span.start_ofLength, List.drop_left]
    exact hopened.trans (List.prefix_append line after)
  line i hstart hstop := by
    rw [Span.start_ofLength] at hstart
    rw [Span.stop_ofLength] at hstop
    rw [List.getElem?_append_right hstart, List.getElem?_append_left (by omega)]
    exact fun hget => hline (List.mem_of_getElem? hget)
  stop_le := by
    rw [Span.stop_ofLength, List.length_append, List.length_append]
    omega
  closed := by
    have hget : (front ++ (line ++ after))[front.length + line.length]? = after.head? := by
      rw [List.getElem?_append_right (Nat.le_add_right _ _), Nat.add_sub_cancel_left,
        List.getElem?_append_right (Nat.le_refl _), Nat.sub_self, List.head?_eq_getElem?]
    rw [Span.stop_ofLength, hget]
    exact hafter

/-- A gap consists of blanks and of comments that do not go on behind it. -/
theorem Blanks.outside {skipped rest : List Char} (h : Blanks skipped rest) {text : List Char}
    (front : List Char) (htext : text = front ++ (skipped ++ rest)) {i : Nat}
    (hfront : front.length ≤ i) (hi : i < front.length + skipped.length) :
    (∃ c ∈ [' ', '\t', '\r', '\n'], text[i]? = some c) ∨
      ∃ comment, IsComment text comment ∧ comment.Covers i ∧
        front.length ≤ comment.start ∧ comment.stop ≤ front.length + skipped.length := by
  -- What has been passed already goes to the front.
  induction h generalizing front with
  | nil =>
      rw [List.length_nil] at hi
      omega
  | @blank c skipped rest hc _ ih =>
      by_cases heq : i = front.length
      · refine .inl ⟨c, mem_blanks_of_isGap hc, ?_⟩
        rw [htext, heq, List.getElem?_append_right (Nat.le_refl _), Nat.sub_self]
        rfl
      · have hlength : (front ++ [c]).length = front.length + 1 := List.length_append
        rw [List.length_cons] at hi ⊢
        rcases ih (front ++ [c]) (by rw [htext]; simp) (by omega) (by omega) with
          hblank | ⟨comment, hcomment, hcovers, hstart, hstop⟩
        · exact .inl hblank
        · exact .inr ⟨comment, hcomment, hcovers, by omega, by omega⟩
  | @comment body skipped rest hbody hend _ ih =>
      have hlength : (front ++ '/' :: '/' :: body).length = front.length + (body.length + 2) :=
        List.length_append
      simp only [List.length_cons, List.length_append] at hi ⊢
      -- the offset lies in this comment, or the comment has been passed
      by_cases hin : i < front.length + (body.length + 2)
      · refine .inr ⟨.ofLength front.length (body.length + 2), ?_, ⟨hfront, hin⟩,
          Nat.le_refl _, ?_⟩
        · have hline : '\n' ∉ '/' :: '/' :: body := by simpa using hbody
          rw [htext, List.cons_append, List.cons_append, List.append_assoc]
          exact isComment_of_append front (List.prefix_append ['/', '/'] body) hline hend
        · rw [Span.stop_ofLength]
          omega
      · rcases ih (front ++ '/' :: '/' :: body) (by rw [htext]; simp) (by omega) (by omega) with
          hblank | ⟨comment, hcomment, hcovers, hstart, hstop⟩
        · exact .inl hblank
        · exact .inr ⟨comment, hcomment, hcovers, by omega, by omega⟩

/-! ## The account of a cursor -/

section Account

variable {text front skipped rest : List Char}

/-- Where only blanks and comments are left, nothing is found. -/
theorem account_nil (htext : text = front ++ rest) (h : Blanks rest []) :
    Account text front.length [] where
  placed := nofun
  ordered := List.Pairwise.nil
  reads := nofun
  outside i hfirst hi _ := by
    have hlast : i < front.length + rest.length := by rwa [htext, List.length_append] at hi
    have hgap : text = front ++ (rest ++ []) := by rw [htext, List.append_nil]
    rcases h.outside front hgap hfirst hlast with
      hblank | ⟨comment, hcomment, hcovers, hstart, _⟩
    · exact .inl hblank
    · exact .inr ⟨comment, hcomment, hcovers, hstart, nofun⟩

/-- What is found first comes behind a gap, and the others behind it. -/
theorem Account.cons {found : List (Except ParseError Token)} {f : Except ParseError Token}
    {n : Nat}
    (htext : text = front ++ (skipped ++ rest)) (hblanks : Blanks skipped rest)
    (hstops : Stops rest)
    (hreads : Reads f n rest) (hplace : place f = .ofLength (front.length + skipped.length) n)
    (h : Account text (place f).stop found) : Account text front.length (f :: found) where
  placed := by
    obtain ⟨hpos, hle⟩ := hreads.bounds
    have hlength : text.length = front.length + (skipped.length + rest.length) := by
      rw [htext, List.length_append, List.length_append]
    have hstart : (place f).start = front.length + skipped.length := by
      rw [hplace, Span.start_ofLength]
    have hstop : (place f).stop = front.length + skipped.length + n := by
      rw [hplace, Span.stop_ofLength]
    refine List.forall_mem_cons.mpr ⟨by omega, fun b hb => ?_⟩
    -- the others start where this one stops, at the earliest
    obtain ⟨hfirst, hrest⟩ := h.placed b hb
    exact ⟨by omega, hrest⟩
  ordered := List.pairwise_cons.mpr ⟨fun b hb => (h.placed b hb).1, h.ordered⟩
  reads := by
    refine List.forall_mem_cons.mpr ⟨?_, h.reads⟩
    have hdrop : text.drop (place f).start = rest := by
      rw [hplace, Span.start_ofLength, htext, ← List.append_assoc, ← List.length_append,
        List.drop_left]
    have hlength : (place f).stop - (place f).start = n := by
      rw [hplace, Span.start_ofLength, Span.stop_ofLength, Nat.add_sub_cancel_left]
    rw [hdrop, hlength]
    exact ⟨hreads, hstops⟩
  outside i hfirst hi hnone := by
    rw [List.forall_mem_cons] at hnone
    have hstart : (place f).start = front.length + skipped.length := by
      rw [hplace, Span.start_ofLength]
    have horder := (place f).start_le_stop
    -- An offset that is not in the place lies in the gap before it or behind it.
    by_cases hgap : i < front.length + skipped.length
    · rcases hblanks.outside front htext hfirst hgap with
        hblank | ⟨comment, hcomment, hcovers, hcstart, hcstop⟩
      · exact .inl hblank
      · refine .inr ⟨comment, hcomment, hcovers, hcstart, fun j hj => ?_⟩
        refine List.forall_mem_cons.mpr ⟨fun hf => ?_, fun b hb hf => ?_⟩
        · have := hj.2
          have := hf.1
          omega
        · have := hj.2
          have := hf.1
          have := (h.placed b hb).1
          omega
    · have hbehind : (place f).stop ≤ i := by
        have := hnone.1
        rw [Span.Covers] at this
        omega
      rcases h.outside i hbehind hi hnone.2 with
        hblank | ⟨comment, hcomment, hcovers, hcstart, hothers⟩
      · exact .inl hblank
      · refine .inr ⟨comment, hcomment, hcovers, by omega, fun j hj => ?_⟩
        refine List.forall_mem_cons.mpr ⟨fun hf => ?_, hothers j hj⟩
        have := hj.1
        have := hf.2
        omega

end Account

namespace Cursor

/-- What is found from a cursor on accounts for the text from there on. -/
theorem account_scan (cur : Cursor) : ∀ {front : List Char}, cur.offset = front.length →
    Account (front ++ cur.rest) cur.offset cur.scan := by
  fun_induction scan cur with
  | case1 cur hnext =>
      intro front hoffset
      rw [hoffset]
      exact account_nil rfl (next?_eq_none_iff.mp hnext)
  | case2 cur found after hnext hlt ih =>
      intro front hoffset
      obtain ⟨skipped, rest, n, hrest, hblanks, hstops, hreads, hplace, rfl⟩ := exists_reads hnext
      rw [hoffset] at hplace ⊢
      refine Account.cons (by rw [hrest]) hblanks hstops hreads hplace ?_
      -- the cursor stands behind what has been found, so the front grows by all that was passed
      have hpassed : (place found).stop = (front ++ (skipped ++ rest.take n)).length := by
        rw [hplace, Span.stop_ofLength, List.length_append, List.length_append,
          List.length_take_of_le hreads.bounds.2, Nat.add_assoc]
      have haccount := ih hpassed
      rwa [List.append_assoc, List.append_assoc, List.take_append_drop, ← hrest] at haccount

end Cursor

/-! ## Calling again and again -/

/-- The answer to one call: a token or an error, or that the text is at its end, and where. -/
inductive Answer where
  | found (what : Except ParseError Token)
  | atEnd (span : Span)

namespace Cursor

/-- One call of the reader: its answer, and the cursor for the next call. -/
def call (cur : Cursor) : Answer × Cursor :=
  match cur.next? with
  | some (what, after) => (.found what, after)
  | none =>
    let last := skipGap false cur.offset cur.rest
    (.atEnd (.ofLength last.offset 0), last)

/-- The answer to a call when `n` calls have been made before. -/
def answer (cur : Cursor) : Nat → Answer
  | 0 => cur.call.1
  | n + 1 => cur.call.2.answer n

theorem call_of_none {cur : Cursor} (h : cur.next? = none) :
    cur.call = (.atEnd (.ofLength (cur.offset + cur.rest.length) 0),
      ⟨cur.offset + cur.rest.length, []⟩) := by
  rw [call, h, skipGap_to_end cur.offset (next?_eq_none_iff.mp h)]

theorem answer_of_none {cur : Cursor} (h : cur.next? = none) (n : Nat) :
    cur.answer n = .atEnd (.ofLength (cur.offset + cur.rest.length) 0) := by
  induction n generalizing cur with
  | zero => rw [answer, call_of_none h]
  | succ n ih =>
      rw [answer, call_of_none h]
      -- the cursor is now at the end, and stays there
      exact ih (next?_eq_none_iff.mpr .nil)

/-- A cursor and the one behind what is found belong to the same text. -/
theorem end_of_next? {cur after : Cursor} {found : Except ParseError Token}
    (h : cur.next? = some (found, after)) :
    after.offset + after.rest.length = cur.offset + cur.rest.length := by
  obtain ⟨skipped, rest, n, hrest, _, _, hreads, hplace, rfl⟩ := exists_reads h
  have hle := hreads.bounds.2
  show (place found).stop + (rest.drop n).length = _
  rw [hrest, hplace, Span.stop_ofLength, List.length_append, List.length_drop]
  omega

/-- **The answers are what is found, in order, and then the end for ever.** -/
theorem answer_eq (cur : Cursor) (n : Nat) :
    cur.answer n = (cur.scan[n]?).elim (.atEnd (.ofLength (cur.offset + cur.rest.length) 0))
      .found := by
  fun_induction scan cur generalizing n with
  | case1 cur hnext => exact answer_of_none hnext n
  | case2 cur found after hnext hlt ih =>
      cases n with
      | zero =>
          rw [answer, call, hnext]
          rfl
      | succ n =>
          rw [answer, call, hnext, List.getElem?_cons_succ, ← end_of_next? hnext]
          exact ih n

end Cursor

namespace Source

/-- The answer to a call of a new reader of the text when `n` calls have been made before. -/
def answer (s : Source) (n : Nat) : Answer := (Cursor.start s.text).answer n

theorem mapM_id_cons_ok (token : Token) (found : List (Except ParseError Token)) :
    (.ok token :: found).mapM id = (found.mapM id).map (token :: ·) := by
  rw [List.mapM_cons]
  cases found.mapM id <;> rfl

/-- Tokens without an error are the tokens of the text. -/
theorem mapM_id_eq_ok_iff {found : List (Except ParseError Token)} {tokens : List Token} :
    found.mapM id = .ok tokens ↔ found = tokens.map .ok := by
  induction found generalizing tokens with
  | nil =>
      rw [List.mapM_nil]
      cases tokens <;> simp [pure, Except.pure]
  | cons f found ih =>
      constructor
      · intro h
        cases f with
        | error err => cases h
        | ok token =>
            rw [mapM_id_cons_ok] at h
            -- one error further on is an error of the whole
            cases hrest : found.mapM id with
            | error err =>
                rw [hrest] at h
                cases h
            | ok rest =>
                rw [hrest] at h
                cases h
                rw [ih.mp hrest]
                rfl
      · intro h
        cases tokens with
        | nil => cases h
        | cons token tokens =>
            cases h
            rw [mapM_id_cons_ok, ih.mpr rfl]
            rfl

/-- The first error is that of the text. -/
theorem mapM_id_eq_error_iff {found : List (Except ParseError Token)} {err : ParseError} :
    found.mapM id = .error err ↔
      ∃ (tokens : List Token) (rest : List (Except ParseError Token)),
        found = tokens.map .ok ++ .error err :: rest := by
  induction found with
  | nil => simp [pure, Except.pure]
  | cons f found ih =>
      constructor
      · intro h
        cases f with
        | error err' =>
            cases h
            exact ⟨[], found, rfl⟩
        | ok token =>
            rw [mapM_id_cons_ok] at h
            cases hrest : found.mapM id with
            | error err' =>
                rw [hrest] at h
                cases h
                obtain ⟨tokens, rest, hfound⟩ := ih.mp hrest
                exact ⟨token :: tokens, rest, by rw [hfound]; rfl⟩
            | ok rest =>
                rw [hrest] at h
                cases h
      · rintro ⟨tokens, rest, h⟩
        cases tokens with
        | nil =>
            cases h
            rfl
        | cons token tokens =>
            cases h
            rw [mapM_id_cons_ok, ih.mpr ⟨tokens, rest, rfl⟩]
            rfl

/-- **Reading accounts for every character by the longest lexemes.** Calls of the reader answer
what is found in the text, which is finite, and from then on that the text is at its end. What is
found lies in order in the text and is the longest lexeme at its place, or an error; all else are
blanks and comments. The text has tokens just if no error is found, and else the first error is
that of the text. -/
theorem scan_accounts (s : Source) :
    (∀ n, s.answer n = (s.scan[n]?).elim (.atEnd s.endSpan) .found) ∧
    Account s.text.toList 0 s.scan ∧
    (∀ tokens, s.tokens = .ok tokens ↔ s.scan = tokens.map .ok) ∧
    ∀ err, s.tokens = .error err ↔
      ∃ (tokens : List Token) (rest : List (Except ParseError Token)),
        s.scan = tokens.map .ok ++ .error err :: rest := by
  refine ⟨fun n => ?_, ?_, fun tokens => mapM_id_eq_ok_iff, fun err => mapM_id_eq_error_iff⟩
  · have hanswer := (Cursor.start s.text).answer_eq n
    have hend : (Cursor.start s.text).offset + (Cursor.start s.text).rest.length = s.length := by
      rw [Cursor.start, Source.length, Nat.zero_add, String.length_toList]
    rw [hend] at hanswer
    exact hanswer
  · exact @Cursor.account_scan (Cursor.start s.text) [] rfl

/-- A quotient, a comment with a quote in it, a character that starts nothing and an open
string. -/
example : Source.scan ⟨"main", "a/b//\"\n@ \"c"⟩ =
    [.ok ⟨.identifier "a", .ofLength 0 1⟩, .ok ⟨.symbol .slash, .ofLength 1 1⟩,
      .ok ⟨.identifier "b", .ofLength 2 1⟩, .error ⟨.badCharacter '@', .ofLength 7 1⟩,
      .error ⟨.unterminatedString, .ofLength 9 2⟩] := by
  cbv

end Source

end Stepwise
