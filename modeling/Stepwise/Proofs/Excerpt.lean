import Stepwise.Proofs.Relocation
import Stepwise.Proofs.Tokenization

/-!
# The tokens of an excerpt

A stretch of a text from the start of one of its tokens to the end of a later one has the tokens
that stand there in the whole text, at places that count from the start of the stretch
(`Source.tokens_slice`). Three facts about `Lexed`, which says how a text is split into tokens,
lead to this: what is in front of a token may go (`Lexed.drop`), what is behind one may go
(`Lexed.take`), and the text may be moved (`Lexed.unshift`).

All of this is about texts without errors. A string that is never closed goes on to the end of its
text, so that a cut behind it would change it; between two tokens there is nothing of that kind.
-/

namespace Stepwise

/-! ## Splitting into tokens -/

/-- Whether these are the tokens of a text that stands at an offset. -/
inductive Lexed : Nat → List Char → List Token → Prop where
  | nil {offset : Nat} {rest : List Char} : Blanks rest [] → Lexed offset rest []
  | cons {offset n : Nat} {skipped text : List Char} {token : Token} {tokens : List Token} :
      Blanks skipped text → Stops text → token.lexeme.Longest n text →
      token.span = .ofLength (offset + skipped.length) n →
      Lexed token.span.stop (text.drop n) tokens → Lexed offset (skipped ++ text) (token :: tokens)

namespace Cursor

theorem scan_of_none {cur : Cursor} (h : cur.next? = none) : cur.scan = [] := by
  rw [scan]
  split
  · rfl
  · next hnext =>
    rw [h] at hnext
    cases hnext

theorem scan_of_some {cur after : Cursor} {found : Except ParseError Token}
    (h : cur.next? = some (found, after)) : cur.scan = found :: after.scan := by
  rw [scan]
  split
  · next hnext =>
    rw [h] at hnext
    cases hnext
  · next hnext =>
    rw [h] at hnext
    cases hnext
    rfl

theorem lexed_of_scan (cur : Cursor) : ∀ {tokens : List Token}, cur.scan = tokens.map .ok →
    Lexed cur.offset cur.rest tokens := by
  fun_induction scan cur with
  | case1 cur hnext =>
      intro tokens h
      rw [List.map_eq_nil_iff.mp h.symm]
      exact .nil (next?_eq_none_iff.mp hnext)
  | case2 cur found after hnext hlt ih =>
      intro tokens h
      -- there are tokens only, so what is found first is the first of them
      obtain ⟨token, rest, rfl, rfl, hrest⟩ := List.map_eq_cons_iff.mp h.symm
      obtain ⟨skipped, text, n, htext, hblanks, hstops, hlongest, hspan, rfl⟩ :=
        next?_eq_token_iff.mp hnext
      rw [htext]
      exact .cons hblanks hstops hlongest hspan (ih hrest.symm)

theorem scan_of_lexed {offset : Nat} {rest : List Char} {tokens : List Token}
    (h : Lexed offset rest tokens) : (Cursor.mk offset rest).scan = tokens.map .ok := by
  induction h with
  | nil hblanks => exact scan_of_none (next?_eq_none_iff.mpr hblanks)
  | @cons offset n skipped text token tokens hblanks hstops hlongest hspan _ ih =>
      have hnext : (Cursor.mk offset (skipped ++ text)).next? =
          some (.ok token, ⟨token.span.stop, text.drop n⟩) :=
        next?_eq_token_iff.mpr ⟨skipped, text, n, rfl, hblanks, hstops, hlongest, hspan, rfl⟩
      rw [scan_of_some hnext, ih]
      rfl

end Cursor

/-- **The tokens of a text.** -/
theorem Source.tokens_eq_ok_iff {s : Source} {tokens : List Token} :
    s.tokens = .ok tokens ↔ Lexed 0 s.text.toList tokens := by
  rw [Source.tokens, Source.mapM_id_eq_ok_iff]
  exact ⟨(Cursor.start s.text).lexed_of_scan, Cursor.scan_of_lexed⟩

/-! ## Cutting and moving -/

theorem head?_of_begin {text text' : List Char} (h : text' <+: text) (hpos : 0 < text'.length) :
    text'.head? = text.head? := by
  obtain ⟨c, cs, rfl⟩ := List.exists_cons_of_length_pos hpos
  obtain ⟨rest, rfl⟩ := h
  rfl

theorem Stops.of_begin {text text' : List Char} (h : Stops text) (hbegin : text' <+: text)
    (hpos : 0 < text'.length) : Stops text' where
  blank := by
    rw [head?_of_begin hbegin hpos]
    exact h.blank
  comment hslashes := h.comment (hslashes.trans hbegin)

/-- The longest lexeme of a text is the longest one of every beginning that holds it. -/
theorem Lexeme.Longest.of_begin {l : Lexeme} {n : Nat} {text text' : List Char}
    (h : l.Longest n text) (hbegin : text' <+: text) (hn : n ≤ text'.length) :
    l.Longest n text' := by
  have htake {m : Nat} (hm : m ≤ text'.length) : text'.take m = text.take m := by
    obtain ⟨rest, rfl⟩ := hbegin
    rw [List.take_append_of_le_length hm]
  -- a longer lexeme in the beginning would be one in the whole text
  refine ⟨hn, ?_, fun m hlt hm l' => ?_⟩
  · rw [htake hn]
    exact h.spelled
  · rw [htake hm]
    exact h.longest m hlt (Nat.le_trans hm hbegin.length_le) l'

namespace Lexed

variable {offset : Nat} {text : List Char} {front tokens : List Token} {token : Token}

/-- What stands before a token may go. -/
theorem drop (h : Lexed offset text (front ++ token :: tokens)) :
    ∃ before rest, text = before ++ rest ∧ token.span.start = offset + before.length ∧
      Lexed token.span.start rest (token :: tokens) := by
  induction front generalizing offset text with
  | nil =>
      cases h with
      | @cons _ n skipped text _ _ hblanks hstops hlongest hspan hrest =>
          have hstart : token.span.start = offset + skipped.length := by
            rw [hspan, Span.start_ofLength]
          refine ⟨skipped, text, rfl, hstart, ?_⟩
          refine @Lexed.cons _ n [] text _ _ .nil hstops hlongest ?_ hrest
          rw [hspan, Span.start_ofLength, List.length_nil, Nat.add_zero]
  | cons first front ih =>
      cases h with
      | @cons _ n skipped text _ _ hblanks hstops hlongest hspan hrest =>
          -- the first token goes, and what goes behind it is known by induction
          obtain ⟨before, rest, htext, hstart, hlexed⟩ := ih hrest
          refine ⟨skipped ++ (text.take n ++ before), rest, ?_, ?_, hlexed⟩
          · rw [List.append_assoc, List.append_assoc, ← htext, List.take_append_drop]
          · rw [hstart, hspan, Span.stop_ofLength, List.length_append, List.length_append,
              List.length_take_of_le hlongest.le_length]
            omega

/-- A token stays the same if the text is cut off somewhere behind it. -/
theorem cons_cut {n : Nat} {skipped part rest : List Char} (hblanks : Blanks skipped text)
    (hstops : Stops text) (hlongest : token.lexeme.Longest n text)
    (hspan : token.span = .ofLength (offset + skipped.length) n)
    (hcut : text.drop n = part ++ rest)
    (h : Lexed token.span.stop part tokens) :
    Lexed offset (skipped ++ (text.take n ++ part)) (token :: tokens) := by
  have hlength : (text.take n).length = n := List.length_take_of_le hlongest.le_length
  -- what is left begins the text and still holds the whole token
  have hbegin : text.take n ++ part <+: text :=
    ⟨rest, by rw [List.append_assoc, ← hcut, List.take_append_drop]⟩
  have hn : n ≤ (text.take n ++ part).length := by
    rw [List.length_append]
    omega
  have hpos : 0 < (text.take n ++ part).length :=
    Nat.lt_of_lt_of_le (Reads.token hlongest).bounds.1 hn
  have hdrop : (text.take n ++ part).drop n = part := List.drop_left' hlength
  refine .cons (hblanks.congr (head?_of_begin hbegin hpos)) (hstops.of_begin hbegin hpos)
    (hlongest.of_begin hbegin hn) hspan ?_
  rw [hdrop]
  exact h

/-- What stands behind a token may go. -/
theorem take (h : Lexed offset text (front ++ token :: tokens)) :
    ∃ part rest, text = part ++ rest ∧ token.span.stop = offset + part.length ∧
      Lexed offset part (front ++ [token]) := by
  induction front generalizing offset text with
  | nil =>
      cases h with
      | @cons _ n skipped text _ _ hblanks hstops hlongest hspan hrest =>
          -- the text now ends with the token
          refine ⟨skipped ++ (text.take n ++ []), text.drop n, ?_, ?_,
            cons_cut hblanks hstops hlongest hspan rfl (.nil .nil)⟩
          · rw [List.append_nil, List.append_assoc, List.take_append_drop]
          · rw [hspan, Span.stop_ofLength, List.append_nil, List.length_append,
              List.length_take_of_le hlongest.le_length, Nat.add_assoc]
  | cons first front ih =>
      cases h with
      | @cons _ n skipped text _ _ hblanks hstops hlongest hspan hrest =>
          obtain ⟨part, rest, hcut, hstop, hlexed⟩ := ih hrest
          refine ⟨skipped ++ (text.take n ++ part), rest, ?_, ?_,
            cons_cut hblanks hstops hlongest hspan hcut hlexed⟩
          · rw [List.append_assoc, List.append_assoc, ← hcut, List.take_append_drop]
          · rw [hstop, hspan, Span.stop_ofLength, List.length_append, List.length_append,
              List.length_take_of_le hlongest.le_length]
            omega

/-- A text may be moved to the left with its tokens. -/
theorem unshift {n first : Nat} (h : Lexed first text tokens) (hfirst : first = n + offset) :
    Lexed offset text (tokens.map (Token.unshift n)) := by
  induction h generalizing offset with
  | nil hblanks => exact .nil hblanks
  | @cons _ m skipped text token tokens hblanks hstops hlongest hspan _ ih =>
      -- the token has the same distance from the start of the text
      have hmoved : (token.unshift n).span = .ofLength (offset + skipped.length) m := by
        show token.span.unshift n = _
        rw [hspan, hfirst]
        exact Span.ext (by simp [Span.unshift]; omega) (by simp [Span.unshift]; omega)
      refine .cons hblanks hstops hlongest hmoved (ih ?_)
      rw [hmoved, hspan, Span.stop_ofLength, Span.stop_ofLength]
      omega

end Lexed

/-! ## The excerpt -/

/-- **The text from the start of a token to the end of a later one has the tokens that stand
there.** -/
theorem Source.tokens_slice {s : Source} {before part behind more front : List Token}
    {first last : Token} (h : s.tokens = .ok (before ++ part ++ behind))
    (hfirst : part = first :: more) (hlast : part = front ++ [last]) {span : Span}
    (hstart : span.start = first.span.start) (hstop : span.stop = last.span.stop) (name : String) :
    Source.tokens ⟨name, s.slice span⟩ = .ok (part.map (Token.unshift span.start)) := by
  have hlexed := Source.tokens_eq_ok_iff.mp h
  rw [hfirst, List.append_assoc, List.cons_append] at hlexed
  -- first what is in front of the part goes, then what is behind it
  obtain ⟨left, text, htext, hleft, hlexed⟩ := hlexed.drop
  rw [← List.cons_append, ← hfirst, hlast, List.append_assoc, List.singleton_append] at hlexed
  obtain ⟨middle, right, rfl, hmiddle, hlexed⟩ := hlexed.take
  rw [Nat.zero_add] at hleft
  rw [← hlast] at hlexed
  -- what is left is what the span cuts out of the text
  have hslice : (s.slice span).toList = middle := by
    have htake : s.text.toList.take span.stop = left ++ middle := by
      rw [htext, ← List.append_assoc]
      refine List.take_left' ?_
      rw [List.length_append, hstop, hmiddle, hleft]
    rw [Source.slice, String.toList_ofList, htake, hstart, hleft, List.drop_left]
  rw [Source.tokens_eq_ok_iff, hslice, hstart]
  exact hlexed.unshift rfl

end Stepwise
