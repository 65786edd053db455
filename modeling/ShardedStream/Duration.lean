/-!
Lengths of time in whole nanoseconds, their rounding to milliseconds, and their text.
-/

namespace ShardedStream

structure Duration where
  nanos : Nat
  deriving DecidableEq, Repr, Inhabited

namespace Duration

def nanosPerMilli : Nat := 1000000

def ofMillis (millis : Nat) : Duration := ⟨millis * nanosPerMilli⟩

/-- Whole milliseconds, rounded down. -/
def wholeMillis (duration : Duration) : Nat := duration.nanos / nanosPerMilli

/-- Whole milliseconds, rounded up: a timer of this length ends no earlier. -/
def ceilMillis (duration : Duration) : Nat :=
  (duration.nanos + (nanosPerMilli - 1)) / nanosPerMilli

def isZero (duration : Duration) : Bool := duration.nanos == 0

/-- The shorter of two lengths of time. -/
def min (first second : Duration) : Duration := ⟨Nat.min first.nanos second.nanos⟩

@[simp] theorem wholeMillis_ofMillis (millis : Nat) : (ofMillis millis).wholeMillis = millis := by
  simp [ofMillis, wholeMillis, nanosPerMilli]

@[simp] theorem ceilMillis_ofMillis (millis : Nat) : (ofMillis millis).ceilMillis = millis := by
  simp only [ofMillis, ceilMillis, nanosPerMilli]
  omega

/-- A timer ends less than a millisecond after its due time, and never before. -/
theorem ceilMillis_bounds (duration : Duration) :
    duration.nanos ≤ duration.ceilMillis * nanosPerMilli ∧
      duration.ceilMillis * nanosPerMilli < duration.nanos + nanosPerMilli := by
  simp only [ceilMillis, nanosPerMilli]
  omega

/-- The digits of `value`, filled up with zeros on the left to a given width. -/
def padded (width value : Nat) : List Char :=
  let digits := Nat.toDigits 10 value
  List.replicate (width - digits.length) '0' ++ digits

/-- A decimal fraction without its trailing zeros, and without its point when none is left. -/
def fraction (width value : Nat) : List Char :=
  let kept := ((padded width value).reverse.dropWhile (· == '0')).reverse
  if kept.isEmpty then [] else '.' :: kept

/-- `nanos` in a unit of `10 ^ width` nanoseconds. -/
def inUnit (width nanos : Nat) (unit : String) : String :=
  let size := Nat.pow 10 width
  String.ofList (Nat.toDigits 10 (nanos / size) ++ fraction width (nanos % size)) ++ unit

/-- The text names the largest unit that the duration fills, from seconds to nanoseconds. -/
def text (duration : Duration) : String :=
  if 1000000000 ≤ duration.nanos then inUnit 9 duration.nanos "s"
  else if 1000000 ≤ duration.nanos then inUnit 6 duration.nanos "ms"
  else if 1000 ≤ duration.nanos then inUnit 3 duration.nanos "µs"
  else inUnit 0 duration.nanos "ns"

end Duration

end ShardedStream
