import Stepwise.Parse.Error
import Stepwise.Run.Error
import Stepwise.Source.Basic

/-!
# Diagnostics

What is reported to the user of a program: a message, with the place it is about if there is one.
-/

namespace Stepwise

/-- A message about a program. -/
structure Diagnostic where
  message : String
  span : Option Span
deriving DecidableEq

/-- The line that reports a diagnostic. -/
def Diagnostic.render (d : Diagnostic) (source : Source) : String :=
  match d.span with
  | some span => "error at " ++ source.describe span ++ ": " ++ d.message
  | none => "error: " ++ d.message

/-- The diagnostic of a text that is not a program. -/
def ParseError.diagnostic (e : ParseError) : Diagnostic := ⟨e.cause.message, some e.span⟩

/-- The diagnostic of a program that went wrong. -/
def RunError.diagnostic (e : RunError) : Diagnostic := ⟨e.fault.message, some e.span⟩

/-- The diagnostic of a program that cannot be run; a hole has no place to show. -/
def Failure.diagnostic (f : Failure) : Diagnostic :=
  match f with
  | .unsupported span _ => ⟨f.message, some span⟩
  | .missingStatement | .missingExpression => ⟨f.message, none⟩

end Stepwise
