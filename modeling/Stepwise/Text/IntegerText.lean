import Stepwise.Text.Blank
import Stepwise.Text.Decimal
import Stepwise.Text.DecimalDigit

/-!
# Integers as a user writes them

An integer is a sign, if any, and decimal digits of any script, with blanks around it allowed. A
single underscore may stand between two digits. Very long numbers are refused.
-/

namespace Stepwise.Text.IntegerText

/-- The greatest number of digits that is accepted. -/
def maxDigits : Nat := 4300

/-- The values of the digits; underscores stand one at a time and only between digits. -/
def digits? : List Char → Option (List Nat)
  | [] => none
  | [c] => (decimalDigit? c).map ([·])
  | c :: '_' :: rest => do
    let d ← decimalDigit? c
    return d :: (← digits? rest)
  | c :: rest => do
    let d ← decimalDigit? c
    return d :: (← digits? rest)

/-- The number that the digits denote. -/
def ofDigits (ds : List Nat) : Nat := ds.foldl (fun n d => 10 * n + d) 0

/-- A natural number without sign and blanks. -/
def natural? (cs : List Char) : Option Nat := do
  let ds ← digits? cs
  if ds.length ≤ maxDigits then some (ofDigits ds) else none

/-- The integer that a text is. -/
def parse? (text : String) : Option Int :=
  match trimBlank text.toList with
  | '-' :: cs => (natural? cs).map fun n => -(n : Int)
  | '+' :: cs => (natural? cs).map fun n => (n : Int)
  | cs => (natural? cs).map fun n => (n : Int)

end Stepwise.Text.IntegerText
