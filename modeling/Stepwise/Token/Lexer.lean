import Stepwise.Parse.Error
import Stepwise.Source.Basic
import Stepwise.Token.Basic

/-!
# From text to tokens

Reading goes from left to right with a cursor. Between tokens there may be gaps, of blanks and of
comments that run from `//` to the end of their line. At the first character after a gap the
longest lexeme is taken; where none starts, that one character is an error, and an open string is
an error up to the end of the text. Either way the cursor moves on (`Cursor.next?_lt`), so that
reading can continue behind an error and always comes to the end.
-/

namespace Stepwise

/-- A place in a text: an offset and the characters from there on. -/
structure Cursor where
  offset : Nat
  rest : List Char
deriving DecidableEq

/-- What starts at a place, and how many characters after the first one belong to it. -/
structure Scanned where
  content : Except ParseError.Cause Lexeme
  extra : Nat

namespace Scanned

/-- Whether the character separates tokens. -/
def isGap (c : Char) : Bool := c == ' ' || c == '\t' || c == '\r' || c == '\n'

/-- Whether the character can start a name. -/
def isWordStart (c : Char) : Bool := c == '_' || c.isAlpha

/-- Whether the character can continue a name. -/
def isWordPart (c : Char) : Bool := c == '_' || c.isAlphanum

/-- A string whose opening quote has been read. -/
def string (rest : List Char) : Scanned :=
  let body := rest.takeWhile (· ≠ '"')
  if body.length < rest.length then ⟨.ok (.string (String.ofList body)), body.length + 1⟩
  else ⟨.error .unterminatedString, rest.length⟩

/-- A number that starts with the digit `c`; with a point after its digits it is a float, and
further digits after the point are optional. -/
def number (c : Char) (rest : List Char) : Scanned :=
  let whole := rest.takeWhile Char.isDigit
  match rest.drop whole.length with
  | '.' :: after =>
    let fraction := after.takeWhile Char.isDigit
    let digits := Text.Decimal.value (c :: whole ++ fraction)
    ⟨.ok (.float (Float.ofScientific digits true fraction.length)),
      whole.length + 1 + fraction.length⟩
  | _ => ⟨.ok (.int (Text.Decimal.value (c :: whole))), whole.length⟩

/-- What a whole word says: a truth value, a keyword or a name. -/
def wordLexeme (word : String) : Lexeme :=
  if word = "true" then .bool true
  else if word = "false" then .bool false
  else match Keyword.ofText? word with
    | some k => .keyword k
    | none => .identifier word

/-- A word that starts with the character `c`. -/
def word (c : Char) (rest : List Char) : Scanned :=
  let more := rest.takeWhile isWordPart
  ⟨.ok (wordLexeme (String.ofList (c :: more))), more.length⟩

/-- The longest lexeme that starts with `c`, or the error that is there. -/
def ofChars (c : Char) (rest : List Char) : Scanned :=
  if c = '"' then string rest
  else match Symbol.single? c with
    | some s => ⟨.ok (.symbol s), 0⟩
    | none =>
      match SymbolPair.of? c with
      | some p =>
        if rest.head? = some p.second then ⟨.ok (.symbol p.paired), 1⟩
        else ⟨.ok (.symbol p.alone), 0⟩
      | none =>
        if c.isDigit then number c rest
        else if isWordStart c then word c rest
        else ⟨.error (.badCharacter c), 0⟩

end Scanned

namespace Cursor

/-- The cursor at the start of a text. -/
def start (text : String) : Cursor := ⟨0, text.toList⟩

/-- Moves over blanks and comments; inside a comment everything up to a line feed is passed. -/
def skipGap (inComment : Bool) (offset : Nat) : List Char → Cursor
  | [] => ⟨offset, []⟩
  | c :: cs =>
    if inComment then skipGap (c != '\n') (offset + 1) cs
    else if Scanned.isGap c then skipGap false (offset + 1) cs
    else if c = '/' && cs.head? = some '/' then skipGap true (offset + 1) cs
    else ⟨offset, c :: cs⟩

theorem length_rest_skipGap_le (inComment : Bool) (offset : Nat) (cs : List Char) :
    (skipGap inComment offset cs).rest.length ≤ cs.length := by
  induction cs generalizing inComment offset with
  | nil => simp [skipGap]
  | cons c cs ih =>
    simp only [skipGap]
    split
    · exact Nat.le_succ_of_le (ih _ _)
    · split
      · exact Nat.le_succ_of_le (ih _ _)
      · split
        · exact Nat.le_succ_of_le (ih _ _)
        · exact Nat.le_refl _

/-- The next token or error and the cursor behind it; nothing at the end of the text. -/
def next? (cur : Cursor) : Option (Except ParseError Token × Cursor) :=
  match skipGap false cur.offset cur.rest with
  | ⟨_, []⟩ => none
  | ⟨offset, c :: cs⟩ =>
    let scanned := Scanned.ofChars c cs
    let span := Span.ofLength offset (1 + scanned.extra)
    let found := match scanned.content with
      | .ok lexeme => .ok ⟨lexeme, span⟩
      | .error cause => .error ⟨cause, span⟩
    some (found, ⟨span.stop, cs.drop scanned.extra⟩)

theorem next?_lt {cur after : Cursor} {found : Except ParseError Token}
    (h : cur.next? = some (found, after)) : after.rest.length < cur.rest.length := by
  have hle := length_rest_skipGap_le false cur.offset cur.rest
  unfold next? at h
  split at h
  · simp at h
  · next offset c cs hskip =>
    rw [hskip] at hle
    simp only [Option.some.injEq, Prod.mk.injEq] at h
    simp only [← h.2, List.length_drop]
    simp only [List.length_cons] at hle
    omega

/-- All tokens and errors from the cursor on, in order. -/
def scan (cur : Cursor) : List (Except ParseError Token) :=
  match h : cur.next? with
  | none => []
  | some (found, after) =>
    have : after.rest.length < cur.rest.length := next?_lt h
    found :: after.scan
termination_by cur.rest.length

end Cursor

namespace Source

/-- The tokens and errors of a text, reading on behind each error. -/
def scan (s : Source) : List (Except ParseError Token) := (Cursor.start s.text).scan

/-- The tokens of a text, or its first error. -/
def tokens (s : Source) : Except ParseError (List Token) := s.scan.mapM id

end Source

end Stepwise
