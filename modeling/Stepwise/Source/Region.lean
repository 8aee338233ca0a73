import Stepwise.Source.Basic

/-!
# Regions

A region is a span in one of several sources. Only regions of the same source can be joined, even
if another source has the same name and text.
-/

namespace Stepwise

/-- A span in the source with this number. -/
structure Region where
  file : Nat
  span : Span
deriving DecidableEq

/-- Why a region cannot be made. -/
inductive RegionError where
  | reversed
  | differentFiles
deriving DecidableEq

/-- The wording of a refusal. -/
def RegionError.message : RegionError → String
  | .reversed => "cannot have span that ends earlier than it starts"
  | .differentFiles => "cannot join two spans from different files"

namespace Region

/-- The region between two offsets of a source. -/
def ofBounds (file start stop : Nat) : Except RegionError Region :=
  match Span.ofBounds? start stop with
  | some span => .ok ⟨file, span⟩
  | none => .error .reversed

/-- The least region that covers both. -/
def join (a b : Region) : Except RegionError Region :=
  if a.file = b.file then .ok ⟨a.file, a.span.join b.span⟩ else .error .differentFiles

/-- The empty region at the end of a source. -/
def atEnd (file : Nat) (source : Source) : Region := ⟨file, source.endSpan⟩

end Region

end Stepwise
