import Stepwise.Number.FloatText
import Stepwise.Text.Decimal

/-!
# Values

What expressions evaluate to. Integers are unbounded. Each value has two texts: the one that
`print` writes, and the one that diagnostics show, where strings stand in quotes.
-/

namespace Stepwise

/-- The type of a value. -/
inductive Ty where
  | int
  | float
  | string
  | bool
deriving DecidableEq

/-- The name of a type in messages. -/
def Ty.name : Ty → String
  | .int => "int"
  | .float => "float"
  | .string => "string"
  | .bool => "bool"

/-- A value of the language. -/
inductive Value where
  | int (n : Int)
  | float (x : Float)
  | string (s : String)
  | bool (b : Bool)
deriving DecidableEq

namespace Value

/-- The type of a value. -/
def type : Value → Ty
  | .int _ => .int
  | .float _ => .float
  | .string _ => .string
  | .bool _ => .bool

/-- The text that `print` writes. -/
def display : Value → String
  | .int n => Text.Decimal.ofInt n
  | .float x => FloatText.write x
  | .string s => s
  | .bool b => if b then "true" else "false"

/-- The text in diagnostics: a string stands between double quotes, as it is. -/
def diagnostic : Value → String
  | .string s => "\"" ++ s ++ "\""
  | v => v.display

/-- Equality of contents: values of different types differ, and floats are compared as numbers, so
that zero equals minus zero. -/
def same : Value → Value → Bool
  | .int a, .int b => a == b
  | .float a, .float b => a == b
  | .string a, .string b => a == b
  | .bool a, .bool b => a == b
  | _, _ => false

/-- The values without those that are the same as an earlier one. -/
def distinct (vs : List Value) : List Value :=
  vs.foldl (fun kept v => if kept.any (same · v) then kept else kept ++ [v]) []

end Value

end Stepwise
