import Stepwise.Proofs.LexicalScoping
import Stepwise.Proofs.Reformatting
import Stepwise.Proofs.Reparsing

/-!
# Programs one after the other

Two programs, the second of them on a new line, are one program: the statements of the
first, and then those of the second at places that are as far to the right as the
second text is (`Source.parse_append_line`).

The line feed keeps the texts apart. No token of the first text goes on beyond it, since
only a string may have a line feed in it and the strings of a text without errors are closed
(`Lexeme.Longest.append_line`). A comment that ends with the first text ends with its line
in the whole one (`Blanks.append_line`), so nothing of the second text is lost in it. The
tokens of the whole are thus those of the parts (`Lexed.append_line`, the step from token to
token being the induction).

The grammar then needs no look at the border: derivations of the parts are a derivation
of the whole, and there is no other, whether or not the first part ends in an `if` that
could have gone on.
-/

namespace Stepwise

open Grammar Scanned

/-! ## Behind the line -/

variable {text more : List Char}

/-- No token becomes longer by what is behind the line. -/
theorem Lexeme.Longest.append_line {l : Lexeme} {n : Nat} (h : l.Longest n text)
    (more : List Char) :
    l.Longest n (text ++ '\n' :: more) := by
  have htake {m : Nat} (hm : m ≤ text.length) : (text ++ '\n' :: more).take m = text.take m :=
    List.take_append_of_le_length hm
  refine ⟨?_, ?_, ?_⟩
  · rw [List.length_append]
    exact Nat.le_trans h.le_length (Nat.le_add_right _ _)
  · rw [htake h.le_length]
    exact h.spelled
  · intro m hlt hle l'
    -- a longer lexeme would still end in the first text, or go beyond the line feed
    by_cases hm : m ≤ text.length
    · rw [htake hm]
      exact h.longest m hlt hm l'
    · -- the line feed is in what the token would have gained
      obtain ⟨k, rfl⟩ : ∃ k, m = text.length + (k + 1) := ⟨m - text.length - 1, by omega⟩
      have hsplit : (text ++ '\n' :: more).take (text.length + (k + 1)) =
          text.take n ++ (text.drop n ++ '\n' :: more.take k) := by
        rw [List.take_length_add_append, List.take_succ_cons, ← List.append_assoc,
          List.take_append_drop]
      rw [hsplit]
      exact h.spelled.not_spelled_append (x := '\n') (by simp) rfl

/-- Where neither a blank nor a comment starts, none does with more lines behind. -/
theorem Stops.append_line (h : Stops text) (htext : text ≠ []) (more : List Char) :
    Stops (text ++ '\n' :: more) := by
  obtain ⟨c, cs, rfl⟩ := List.exists_cons_of_ne_nil htext
  refine ⟨h.blank, ?_⟩
  intro hslashes
  obtain ⟨rfl, hhead⟩ := slashes_prefix_iff.mp hslashes
  -- the line feed is no slash, so both slashes are in the first text
  have hfirst : cs.head? = some '/' := by
    cases cs with
    | nil => cases hhead
    | cons c' cs => exact hhead
  exact h.comment (slashes_prefix_iff.mpr ⟨rfl, hfirst⟩)

/-- **A comment at the end of a text ends with its line.** -/
theorem Blanks.append_line {skipped skipped' : List Char} (h : Blanks skipped [])
    (h' : Blanks skipped' text) : Blanks (skipped ++ '\n' :: skipped') text := by
  generalize hrest : ([] : List Char) = rest at h
  induction h with
  | nil => exact .blank rfl h'
  | blank hc _ ih => exact .blank hc (ih hrest)
  | @comment body skipped rest hbody hend _ ih =>
      subst hrest
      -- a comment that went up to the end of the text now goes up to the line feed
      have hline : ∀ c ∈ (skipped ++ '\n' :: skipped' ++ text).head?, c = '\n' := by
        intro c hc
        cases skipped with
        | nil =>
            cases hc
            rfl
        | cons c' skipped => exact hend c hc
      have hcomment := Blanks.comment hbody hline (ih rfl)
      rwa [← List.append_assoc] at hcomment

namespace Lexed

variable {offset : Nat} {tokens tokens' : List Token}

/-- A line with no token in it goes in front. -/
theorem behind_blanks {skipped : List Char} (hskipped : Blanks skipped [])
    (h : Lexed (offset + skipped.length + 1) more tokens) :
    Lexed offset (skipped ++ '\n' :: more) tokens := by
  cases h with
  | nil hblanks => exact .nil (hskipped.append_line hblanks)
  | @cons _ n skipped' text token tokens hblanks hstops hlongest hspan hrest =>
      -- the first token stands behind the blanks of both lines
      have hplace : token.span =
          .ofLength (offset + (skipped ++ '\n' :: skipped').length) n := by
        rw [hspan, List.length_append, List.length_cons]
        congr 1
        omega
      have hlexed := Lexed.cons (hskipped.append_line hblanks) hstops hlongest hplace hrest
      rwa [List.append_assoc, List.cons_append] at hlexed

/-- **The tokens of two texts on lines of their own are those of the one and then of the
other.** -/
theorem append_line (h : Lexed offset text tokens)
    (h' : Lexed (offset + text.length + 1) more tokens') :
    Lexed offset (text ++ '\n' :: more) (tokens ++ tokens') := by
  induction h with
  | nil hblanks => exact behind_blanks hblanks h'
  | @cons offset n skipped text token tokens hblanks hstops hlongest hspan _ ih =>
      -- a token is not empty, so nothing of the second text is looked at in front of it
      obtain ⟨hpos, hle⟩ := (Reads.token hlongest).bounds
      have htext : text ≠ [] := List.ne_nil_of_length_pos (Nat.lt_of_lt_of_le hpos hle)
      have hhead : (text ++ '\n' :: more).head? = text.head? := by
        rw [List.head?_append_of_ne_nil _ htext]
      have hoffset : token.span.stop + (text.drop n).length + 1 =
          offset + (skipped ++ text).length + 1 := by
        rw [hspan, Span.stop_ofLength, List.length_drop, List.length_append]
        omega
      rw [List.append_assoc, List.cons_append]
      refine .cons (hblanks.congr hhead) (hstops.append_line htext more)
        (hlongest.append_line more) hspan ?_
      rw [List.drop_append_of_le_length hle]
      exact ih (by rwa [hoffset])

/-- A text may be moved to the right with its tokens. -/
theorem shift (h : Lexed offset text tokens) (n : Nat) :
    Lexed (n + offset) text (tokens.map (Token.shift n)) := by
  induction h with
  | nil hblanks => exact .nil hblanks
  | @cons offset m skipped text token tokens hblanks hstops hlongest hspan _ ih =>
      -- only the places are moved, the characters that are looked at are the same
      have hmoved : (token.shift n).span = .ofLength (n + offset + skipped.length) m := by
        rw [Token.span_shift, hspan]
        exact Span.ext (by simp [Span.shift]; omega) (by simp [Span.shift]; omega)
      have hstop : (token.shift n).span.stop = n + token.span.stop := by
        rw [hmoved, hspan, Span.stop_ofLength, Span.stop_ofLength]
        omega
      refine .cons hblanks hstops hlongest hmoved ?_
      rw [hstop]
      exact ih

end Lexed

/-! ## One program -/

namespace Grammar

variable {d : Dialect}

theorem Derives.append {clauses clauses' : List Clause} {tokens tokens' : List Token}
    (h : Derives d clauses tokens) (h' : Derives d clauses' tokens') :
    Derives d (clauses ++ clauses') (tokens ++ tokens') := by
  obtain ⟨his, rfl⟩ := h
  obtain ⟨his', rfl⟩ := h'
  exact ⟨List.forall_mem_append.mpr ⟨his, his'⟩, tokensAll_append clauses clauses'⟩

theorem Derives.shift {clauses : List Clause} {tokens : List Token} (h : Derives d clauses tokens)
    (n : Nat) :
    Derives d (Clause.mapTokensAll (Token.shift n) clauses) (tokens.map (Token.shift n)) := by
  obtain ⟨his, rfl⟩ := h
  refine ⟨fun c hc => ?_, Clause.tokensAll_mapTokensAll _ clauses⟩
  rw [Clause.mapTokensAll_eq_map] at hc
  obtain ⟨c', hc', rfl⟩ := List.mem_map.mp hc
  exact (his c' hc').mapTokens (Token.lexeme_shift n)

end Grammar

/-- The tokens of a second text on a new line are moved to the right. -/
theorem Source.tokens_append_line {p q : Source} {tokens tokens' : List Token}
    (hp : p.tokens = .ok tokens) (hq : q.tokens = .ok tokens') (name : String) :
    Source.tokens ⟨name, p.text ++ "\n" ++ q.text⟩ =
      .ok (tokens ++ tokens'.map (Token.shift (p.length + 1))) := by
  have hlexed := Source.tokens_eq_ok_iff.mp hp
  have hoffset : p.length + 1 + 0 = 0 + p.text.toList.length + 1 := by
    rw [Source.length, String.length_toList]
    omega
  -- the second text starts behind the first one and the line feed
  have hmoved : Lexed (0 + p.text.toList.length + 1) q.text.toList
      (tokens'.map (Token.shift (p.length + 1))) :=
    hoffset ▸ (Source.tokens_eq_ok_iff.mp hq).shift (p.length + 1)
  rw [Source.tokens_eq_ok_iff, String.toList_append, String.toList_append, List.append_assoc]
  exact hlexed.append_line hmoved

/-- **Reading a program is a homomorphism**: in every dialect, two programs on lines of their own
are one program, which has the statements of the first as they are and behind them those of the
second with all their spans moved right by the first text and the line feed. -/
theorem Source.parse_append_line {p q : Source} {d : Dialect} {first second : List Stmt}
    (hp : p.parse d = .ok first) (hq : q.parse d = .ok second) (name : String) :
    Source.parse ⟨name, p.text ++ "\n" ++ q.text⟩ d =
      .ok (first ++ Stmt.shiftAll (p.length + 1) second) := by
  obtain ⟨tokens, clauses, htokens, hderives, rfl⟩ := Source.exists_derives hp
  obtain ⟨tokens', clauses', htokens', hderives', rfl⟩ := Source.exists_derives hq
  -- what is derived from the tokens of each text is derived from all of them in a row
  rw [Source.parse_of_derives (Source.tokens_append_line htokens htokens' name)
    (hderives.append (hderives'.shift (p.length + 1)))]
  rw [builtAll_append, Clause.builtAll_shift]

/-- A branch without an alternative, and a comment with a quote in it up to the end. -/
def openEnded : Source := ⟨"first", "if a \x7b \x7d // \" else"⟩

/-- A declaration, and a block with a product in it. -/
def continuation : Source := ⟨"second", "make var b;\n\x7b b = 2 * c; \x7d"⟩

/-- The statement of the open-ended text. -/
def openEndedProgram : List Stmt :=
  [.branch (.ofLength 0 8) (.ofLength 0 2) (.var (.ofLength 3 1) "a")
    (.block (.ofLength 5 3) []) none]

/-- The statements of the continuation, `n` characters to the right. -/
def continuationProgram (n : Nat) : List Stmt :=
  [.declare (.ofLength n 11) "b" none,
   .block (.ofLength (n + 12) 14)
    [.assign (.ofLength (n + 14) 10) "b" (.binary (.ofLength (n + 18) 5)
      (.literal (.ofLength (n + 18) 1) (.int 2)) ⟨.ofLength (n + 20) 1, .arith .multiply⟩
      (.var (.ofLength (n + 22) 1) "c"))]]

/-- Neither the comment nor the branch goes on in the second text. -/
theorem Source.parse_append_line_branch :
    openEnded.parse { decl := .make } = .ok openEndedProgram ∧
      continuation.parse { decl := .make } = .ok (continuationProgram 0) ∧
      Source.parse ⟨"both", openEnded.text ++ "\n" ++ continuation.text⟩ { decl := .make } =
        .ok (openEndedProgram ++ continuationProgram 19) := by
  have hfirst : openEnded.parse { decl := .make } = .ok openEndedProgram := by cbv
  have hsecond : continuation.parse { decl := .make } = .ok (continuationProgram 0) := by cbv
  exact ⟨hfirst, hsecond, Source.parse_append_line hfirst hsecond "both"⟩

end Stepwise
