import NcProgram.Text.Bytes

/-!
Places in a program's text, as UTF-8 byte offsets. An `Extent` is a pair of offsets as it comes; a
`Span` is one that is known to be in order.
-/

namespace NcProgram

/-- Two offsets, not yet known to be in order. -/
structure Extent where
  start : Int
  stop : Int
  deriving DecidableEq

/-- The half-open range of bytes from `start` up to `stop`. -/
structure Span where
  start : Nat
  stop : Nat
  start_le_stop : start ≤ stop
  deriving DecidableEq

namespace Span

/-- The span with the given offsets, if they are in order and none lies before the text. -/
def ofExtent? (e : Extent) : Option Span :=
  if h : 0 ≤ e.start ∧ e.start ≤ e.stop then
    some ⟨e.start.toNat, e.stop.toNat, Int.toNat_le_toNat h.2⟩
  else none

def ofSize (start size : Nat) : Span :=
  ⟨start, start + size, Nat.le_add_right _ _⟩

def size (s : Span) : Nat :=
  s.stop - s.start

def contains (s t : Span) : Bool :=
  s.start ≤ t.start && t.stop ≤ s.stop

def cover (s t : Span) : Span :=
  ⟨min s.start t.start, max s.stop t.stop, by
    have := s.start_le_stop
    omega⟩

/-- The text that a span covers. Fails when a bound falls inside a character. -/
def slice? (s : Span) (source : String) : Option String :=
  (Text.sliceBytes? s.start s.stop source.toList).map String.ofList

def render (s : Span) : String :=
  s!"{s.start}..{s.stop}"

theorem ofExtent?_eq_none_iff {e : Extent} :
    ofExtent? e = none ↔ e.start < 0 ∨ e.stop < e.start := by
  simp only [ofExtent?, dite_eq_right_iff, reduceCtorEq, imp_false]
  omega

end Span

end NcProgram
