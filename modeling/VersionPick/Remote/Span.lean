/-
Spans of time. A span is counted in nanoseconds, up to one less than 2^64
seconds have. Some times a span that comes past that is the longest span, not
what is left of it.
-/
namespace VersionPick

/-- A span of time that can be counted. -/
structure Span where
  nanos : Nat
  lt_limit : nanos < UInt64.size * 1000000000

namespace Span

/-- The longest span. -/
def longest : Span where
  nanos := UInt64.size * 1000000000 - 1
  lt_limit := by decide

def ofMillis (millis : UInt64) : Span where
  nanos := millis.toNat * 1000000
  lt_limit := by have := millis.toNat_lt_size; omega

/-- A span some times, or the longest one if that is longer. -/
def times (s : Span) (count : UInt32) : Span :=
  if h : s.nanos * count.toNat < UInt64.size * 1000000000 then ⟨s.nanos * count.toNat, h⟩ else longest

/-- The shorter one of two spans. -/
def shorter (s t : Span) : Span :=
  if s.nanos ≤ t.nanos then s else t

/-- The whole milliseconds in a span. -/
def millis (s : Span) : Nat :=
  s.nanos / 1000000

end Span

end VersionPick
