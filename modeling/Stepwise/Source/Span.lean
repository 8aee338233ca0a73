/-!
# Spans

A span is a stretch of source text, from one code point offset up to another. That it never ends
before it starts is part of the type.
-/

namespace Stepwise

/-- The characters at the offsets `start ≤ i < stop`. -/
@[ext]
structure Span where
  start : Nat
  stop : Nat
  start_le_stop : start ≤ stop := by omega
deriving DecidableEq

namespace Span

/-- The span between two offsets, if they are in order. -/
def ofBounds? (start stop : Nat) : Option Span :=
  if h : start ≤ stop then some ⟨start, stop, h⟩ else none

/-- The `length` characters from `start` on. -/
def ofLength (start length : Nat) : Span := ⟨start, start + length, by omega⟩

@[simp] theorem start_ofLength (start length : Nat) : (ofLength start length).start = start := rfl

@[simp] theorem stop_ofLength (start length : Nat) :
    (ofLength start length).stop = start + length := rfl

/-- The least span that covers both. -/
def join (a b : Span) : Span :=
  ⟨min a.start b.start, max a.stop b.stop, by
    have := a.start_le_stop
    omega⟩

@[simp] theorem start_join (a b : Span) : (a.join b).start = min a.start b.start := rfl

@[simp] theorem stop_join (a b : Span) : (a.join b).stop = max a.stop b.stop := rfl

/-- The span moved right by `n` characters. -/
def shift (n : Nat) (a : Span) : Span :=
  ⟨a.start + n, a.stop + n, Nat.add_le_add_right a.start_le_stop n⟩

theorem shift_join (n : Nat) (a b : Span) : (a.join b).shift n = (a.shift n).join (b.shift n) :=
  Span.ext (Nat.add_min_add_right ..).symm (Nat.add_max_add_right ..).symm

end Span

/-- A thing and the place in the source text that it was read from. -/
structure Located (α : Type) where
  span : Span
  value : α
deriving DecidableEq

end Stepwise
