import Stepwise.Source.Span
import Stepwise.Text.Quoted

/-!
# Source texts

A source is a program text with a name. Offsets count code points and may lie beyond the end of the
text: a slice is then clipped, and columns go on counting on the last line.
-/

namespace Stepwise

/-- A program text and the name it goes by. -/
structure Source where
  name : String
  text : String
deriving DecidableEq

/-- A place in a text for a reader: lines and columns both count from one. -/
structure Position where
  line : Nat
  column : Nat
deriving DecidableEq

namespace Source

/-- The number of characters. -/
def length (s : Source) : Nat := s.text.length

/-- The empty span at the end of the text. -/
def endSpan (s : Source) : Span := .ofLength s.length 0

/-- How many characters stand after the last line feed of `cs`. -/
def lastLineLength (cs : List Char) : Nat := (cs.reverse.takeWhile (· ≠ '\n')).length

/-- The line and column of an offset. -/
def position (s : Source) (offset : Nat) : Position :=
  let before := s.text.toList.take offset
  { line := before.count '\n' + 1
    column := offset - (before.length - lastLineLength before) + 1 }

/-- The text that a span covers. -/
def slice (s : Source) (span : Span) : String :=
  String.ofList ((s.text.toList.take span.stop).drop span.start)

/-- A span for a reader: the name, and one position, two columns of a line, or two positions. -/
def describe (s : Source) (span : Span) : String :=
  let first := s.position span.start
  let last := s.position span.stop
  let pair (p : Position) := p.line.repr ++ ":" ++ p.column.repr
  if first.line = last.line then
    if first.column = last.column then s.name ++ ":" ++ pair first
    else s.name ++ ":" ++ pair first ++ "-" ++ last.column.repr
  else s.name ++ ":(" ++ pair first ++ ")-(" ++ pair last ++ ")"

/-- How a source names itself. -/
def label (s : Source) : String := "<SourceFile " ++ Text.Quoted.quote s.name ++ ">"

end Source

end Stepwise
