import Mathlib.Data.List.Induction
import Mathlib.Data.Prod.Lex
import Stepwise.Proofs.Spelling
import Stepwise.Source.Basic

/-!
# Positions tell offsets apart

A reader is shown lines and columns in place of offsets. Nothing is lost by that: the offset is the
start of the line plus the column, less one (`lineStart_add_column`), for offsets beyond the end of
the text as well. Since lines do not come back, positions grow with the offsets.

Nor is anything lost when a span is written out. What is shown of it is one position, two columns
of a line or two positions (`Rendering`), and its text can be taken apart again from the left: a
number ends where the digits end (`toDigits_append_inj`), and the character there, or that there
is none, tells which of the three forms it is.
-/

namespace Stepwise

namespace Source

/-! ## Lines -/

/-- The offset at which a line starts, which is right behind the line feed in front of it. -/
def lineStart : List Char → Nat → Nat
  | c :: cs, line + 2 => lineStart cs (if c = '\n' then line + 1 else line + 2) + 1
  | _, _ => 0

theorem lineStart_one (cs : List Char) : lineStart cs 1 = 0 := by
  cases cs with
  | nil => rfl
  | cons c cs => rfl

/-- A line feed ends a line, so that the next one starts behind it. -/
theorem lineStart_behind (front rest : List Char) :
    lineStart (front ++ '\n' :: rest) (front.count '\n' + 2) = front.length + 1 := by
  induction front with
  | nil => rw [List.nil_append, List.count_nil, lineStart, if_pos rfl, lineStart_one]; rfl
  | cons c front ih =>
      rw [List.cons_append, List.length_cons]
      -- either the line that is looked for comes one line sooner, or one character later
      by_cases hc : c = '\n'
      · subst hc
        rw [List.count_cons_self, lineStart, if_pos rfl, ih]
      · rw [List.count_cons_of_ne hc, lineStart, if_neg hc, ih]

theorem lastLineLength_concat (cs : List Char) (c : Char) :
    lastLineLength (cs ++ [c]) = if c = '\n' then 0 else lastLineLength cs + 1 := by
  unfold lastLineLength
  rw [List.reverse_concat, List.takeWhile_cons]
  by_cases hc : c = '\n' <;> simp [hc]

/-- The last line of the beginning of a text starts where this line of the text starts. -/
theorem lineStart_append (front rest : List Char) :
    lineStart (front ++ rest) (front.count '\n' + 1) = front.length - lastLineLength front := by
  induction front using List.reverseRecOn generalizing rest with
  | nil => exact lineStart_one rest
  | append_singleton front c ih =>
      rw [List.append_assoc, List.singleton_append, List.count_append, List.length_append,
        List.length_singleton, lastLineLength_concat]
      -- a line feed starts an empty line behind it; anything else makes the last line longer
      by_cases hc : c = '\n'
      · subst hc
        rw [if_pos rfl, List.count_singleton_self, lineStart_behind]
        omega
      · have hcount : [c].count '\n' = 0 := by simp [hc]
        rw [if_neg hc, hcount, Nat.add_zero, ih (c :: rest)]
        omega

variable (s : Source)

theorem line_position (i : Nat) : (s.position i).line = 1 + (s.text.toList.take i).count '\n' :=
  Nat.add_comm _ 1

/-- **A position gives back its offset.** -/
theorem lineStart_add_column (i : Nat) :
    1 ≤ (s.position i).column ∧
      i = lineStart s.text.toList (s.position i).line + ((s.position i).column - 1) := by
  have hstart : lineStart s.text.toList (s.position i).line =
      (s.text.toList.take i).length - lastLineLength (s.text.toList.take i) := by
    rw [← lineStart_append _ (s.text.toList.drop i), List.take_append_drop]
    rfl
  -- the column counts from the start of the line
  have hcolumn : (s.position i).column = i - lineStart s.text.toList (s.position i).line + 1 := by
    rw [hstart]
    rfl
  have hle : lineStart s.text.toList (s.position i).line ≤ i := by
    rw [hstart]
    exact (Nat.sub_le _ _).trans (List.length_take_le i _)
  omega

/-- A position as a pair; pairs are compared by lines, and by columns on the same line. -/
def linePair (i : Nat) : Nat ×ₗ Nat := toLex ((s.position i).line, (s.position i).column)

/-- **Positions grow with the offsets.** -/
theorem linePair_strictMono : StrictMono s.linePair := by
  intro i j hij
  rw [linePair, linePair, Prod.Lex.toLex_lt_toLex]
  -- the line feeds before `i` are also before `j`
  have hline : (s.position i).line ≤ (s.position j).line := by
    rw [line_position, line_position]
    have hcount := (List.take_prefix_take_left (l := s.text.toList) hij.le).count_le '\n'
    omega
  rcases hline.lt_or_eq with hlt | heq
  · exact .inl hlt
  · -- both offsets count from the start of one line
    have hi := s.lineStart_add_column i
    have hj := s.lineStart_add_column j
    rw [heq] at hi
    exact .inr ⟨heq, by omega⟩

theorem position_injective : Function.Injective s.position := by
  intro i j h
  apply s.linePair_strictMono.injective
  rw [linePair, linePair, h]

end Source

/-! ## The text of a span -/

/-- What a reader is shown of a span. -/
inductive Rendering where
  /-- One position. -/
  | point (p : Position)
  /-- A position and a later column of its line. -/
  | columns (p : Position) (last : Nat)
  /-- Two positions on different lines. -/
  | lines (first last : Position)
deriving DecidableEq

/-- A position in writing. -/
def Position.text (p : Position) : String := p.line.repr ++ ":" ++ p.column.repr

/-- A rendering in writing, behind the name of the source. -/
def Rendering.text (name : String) : Rendering → String
  | .point p => name ++ ":" ++ p.text
  | .columns p last => name ++ ":" ++ p.text ++ "-" ++ last.repr
  | .lines first last => name ++ ":(" ++ first.text ++ ")-(" ++ last.text ++ ")"

/-- How a span is shown. -/
def Source.rendering (s : Source) (span : Span) : Rendering :=
  let first := s.position span.start
  let last := s.position span.stop
  if first.line = last.line then
    if first.column = last.column then .point first else .columns first last.column
  else .lines first last

theorem Source.describe_eq_text (s : Source) (span : Span) :
    s.describe span = (s.rendering span).text s.name := by
  unfold describe rendering
  dsimp only
  split
  · split <;> rfl
  · rfl

/-- The positions at both ends of what is shown. -/
def Rendering.ends : Rendering → Position × Position
  | .point p => (p, p)
  | .columns p last => (p, ⟨p.line, last⟩)
  | .lines first last => (first, last)

theorem Source.ends_rendering (s : Source) (span : Span) :
    (s.rendering span).ends = (s.position span.start, s.position span.stop) := by
  have hmk (p q : Position) (hline : p.line = q.line) : (⟨p.line, q.column⟩ : Position) = q := by
    rw [hline]
  unfold rendering
  dsimp only
  split
  · -- the line is not written twice, but it is the same one
    rename_i hline
    split
    · rename_i hcolumn
      have hlast := hmk _ _ hline
      rw [← hcolumn] at hlast
      exact congrArg (Prod.mk _) hlast
    · exact congrArg (Prod.mk _) (hmk _ _ hline)
  · rfl

/-- Different spans are shown differently. -/
theorem Source.rendering_injective (s : Source) : Function.Injective s.rendering := by
  intro a b h
  have hends := congrArg Rendering.ends h
  rw [ends_rendering, ends_rendering, Prod.mk.injEq] at hends
  obtain ⟨hstart, hstop⟩ := hends
  exact Span.ext (s.position_injective hstart) (s.position_injective hstop)

/-! ## Taking a text apart -/

/-- Whether the text does not go on with a digit. -/
def NoDigitAhead (cs : List Char) : Prop := ∀ c ∈ cs.head?, c.isDigit = false

theorem noDigitAhead_nil : NoDigitAhead [] := by
  intro c hc
  cases hc

theorem noDigitAhead_cons {c : Char} (h : c.isDigit = false) (cs : List Char) :
    NoDigitAhead (c :: cs) := by
  intro d hd
  cases hd
  exact h

/-- A number in front of something that is no digit can be read off. -/
theorem toDigits_append_inj {m n : Nat} {s t : List Char} (hs : NoDigitAhead s)
    (ht : NoDigitAhead t) (h : Nat.toDigits 10 m ++ s = Nat.toDigits 10 n ++ t) :
    m = n ∧ s = t := by
  have hdigits (k : Nat) : ∀ c ∈ Nat.toDigits 10 k, c.isDigit := by
    intro c hc
    exact Nat.isDigit_of_mem_toDigits (by omega) (by omega) hc
  -- the number goes as far as the digits do
  have hnumber : Nat.toDigits 10 m = Nat.toDigits 10 n := by
    rw [← Scanned.takeWhile_run (hdigits m) hs, h, Scanned.takeWhile_run (hdigits n) ht]
  have hvalue := congrArg (Nat.ofDigitChars 10 · 0) hnumber
  simp only [Nat.ofDigitChars_ten_toDigits] at hvalue
  rw [hnumber] at h
  exact ⟨hvalue, List.append_cancel_left h⟩

namespace Position

variable {p q : Position} {s t : List Char}

theorem toList_text (p : Position) :
    p.text.toList = Nat.toDigits 10 p.line ++ ':' :: Nat.toDigits 10 p.column := by
  simp [text, String.toList_append, Nat.toList_repr]

/-- A position in front of something that is no digit can be read off. -/
theorem text_append_inj (hs : NoDigitAhead s) (ht : NoDigitAhead t)
    (h : p.text.toList ++ s = q.text.toList ++ t) : p = q ∧ s = t := by
  rw [toList_text, toList_text, List.append_assoc, List.append_assoc, List.cons_append,
    List.cons_append] at h
  have hcolon (cs : List Char) : NoDigitAhead (':' :: cs) := noDigitAhead_cons rfl cs
  -- the colon ends the line, and what is behind the position ends the column
  obtain ⟨hline, hrest⟩ := toDigits_append_inj (hcolon _) (hcolon _) h
  obtain ⟨hcolumn, hbehind⟩ := toDigits_append_inj hs ht (List.cons.inj hrest).2
  cases p
  cases q
  cases hline
  cases hcolumn
  exact ⟨rfl, hbehind⟩

/-- A position starts with a digit. -/
theorem text_append_ne {c : Char} (hc : c.isDigit = false) : p.text.toList ++ s ≠ c :: t := by
  intro h
  rw [toList_text, List.append_assoc] at h
  obtain ⟨d, ds, hds⟩ := List.exists_cons_of_ne_nil (Nat.toDigits_ne_nil (b := 10) (n := p.line))
  have hd : d.isDigit := by
    refine Nat.isDigit_of_mem_toDigits (b := 10) (n := p.line) (by omega) (by omega) ?_
    rw [hds]
    exact List.mem_cons_self
  rw [hds, List.cons_append] at h
  rw [(List.cons.inj h).1, hc] at hd
  cases hd

end Position

namespace Rendering

/-- The characters of a rendering behind the name and the colon. Each position and each number
stands in front of something, if only of nothing, so that all are read off in the same way. -/
def chars : Rendering → List Char
  | .point p => p.text.toList ++ []
  | .columns p last => p.text.toList ++ '-' :: (Nat.toDigits 10 last ++ [])
  | .lines first last =>
    '(' :: (first.text.toList ++ ')' :: '-' :: '(' :: (last.text.toList ++ [')']))

theorem toList_text (name : String) (r : Rendering) :
    (r.text name).toList = name.toList ++ ':' :: r.chars := by
  cases r with
  | point p => simp [text, chars]
  | columns p last => simp [text, chars, Nat.toList_repr]
  | lines first last => simp [text, chars]

theorem chars_injective : Function.Injective chars := by
  have hend := noDigitAhead_nil
  have hdash (cs : List Char) : NoDigitAhead ('-' :: cs) := noDigitAhead_cons rfl cs
  have hclose (cs : List Char) : NoDigitAhead (')' :: cs) := noDigitAhead_cons rfl cs
  intro r q h
  cases r with
  | point p =>
      cases q with
      | point p' =>
          obtain ⟨rfl, -⟩ := Position.text_append_inj hend hend h
          rfl
      | columns p' last' =>
          -- the same position, and then nothing on one side and a dash on the other
          obtain ⟨-, hrest⟩ := Position.text_append_inj hend (hdash _) h
          cases hrest
      -- no position starts with a parenthesis
      | lines first' last' => exact absurd h (Position.text_append_ne rfl)
  | columns p last =>
      cases q with
      | point p' =>
          obtain ⟨-, hrest⟩ := Position.text_append_inj (hdash _) hend h
          cases hrest
      | columns p' last' =>
          obtain ⟨rfl, hrest⟩ := Position.text_append_inj (hdash _) (hdash _) h
          obtain ⟨rfl, -⟩ := toDigits_append_inj hend hend (List.cons.inj hrest).2
          rfl
      | lines first' last' => exact absurd h (Position.text_append_ne rfl)
  | lines first last =>
      cases q with
      | point p' => exact absurd h.symm (Position.text_append_ne rfl)
      | columns p' last' => exact absurd h.symm (Position.text_append_ne rfl)
      | lines first' last' =>
          obtain ⟨rfl, hrest⟩ :=
            Position.text_append_inj (hclose _) (hclose _) (List.cons.inj h).2
          injection hrest with _ hrest
          injection hrest with _ hrest
          injection hrest with _ hrest
          obtain ⟨rfl, -⟩ := Position.text_append_inj (hclose _) (hclose _) hrest
          rfl

/-- **No two renderings have the same text**, whichever forms they have. -/
theorem text_injective (name : String) : Function.Injective (Rendering.text name) := by
  intro r q h
  have hchars := congrArg String.toList h
  rw [toList_text, toList_text] at hchars
  exact chars_injective (List.cons.inj (List.append_cancel_left hchars)).2

end Rendering

/-- **Rendered positions are unambiguous.** Positions grow strictly with the offsets, by lines and
then by columns, within the text and beyond its end. The line counts the line feeds in front of
the offset, and the offset is the start of the line plus the column less one. The text of a span
is the text of its rendering, in one of three forms whose texts never coincide, so that two spans
with the same text are one span. -/
theorem Source.positions_unambiguous (s : Source) :
    StrictMono (fun i => toLex ((s.position i).line, (s.position i).column)) ∧
      (∀ i, (s.position i).line = 1 + (s.text.toList.take i).count '\n' ∧
        1 ≤ (s.position i).column ∧
        i = lineStart s.text.toList (s.position i).line + ((s.position i).column - 1)) ∧
      (∀ span, s.describe span = (s.rendering span).text s.name) ∧
      Function.Injective (Rendering.text s.name) ∧
      Function.Injective s.describe := by
  refine ⟨s.linePair_strictMono, ?_, s.describe_eq_text, Rendering.text_injective s.name, ?_⟩
  · intro i
    exact ⟨s.line_position i, s.lineStart_add_column i⟩
  · intro a b h
    rw [describe_eq_text, describe_eq_text] at h
    exact s.rendering_injective (Rendering.text_injective s.name h)

example : (Source.mk "t" "var x;\nprint x;").describe ⟨4, 12, by decide⟩ = "t:(1:5)-(2:6)" := by
  decide

end Stepwise
