import ShardedStream.Duration

/-!
Backoff: how long to wait after a failed attempt.
The exponential schedule is computed in binary floating point, in whole milliseconds.
-/

namespace ShardedStream

/-- The delay after each failed attempt, counting from zero. -/
abbrev Backoff := Nat → Duration

/-- The listed delays in order, of which the last one repeats. -/
def Backoff.ofList (delays : List Duration) : Backoff := fun attempt =>
  delays.getD (Nat.min attempt (delays.length - 1)) ⟨0⟩

/-- A delay that grows by a factor up to a ceiling, and may be jittered. -/
structure Exponential where
  initial : Duration
  ceiling : Duration
  multiplier : Float
  jitter : Float

namespace Exponential

/-- The smaller number; a value that is not a number gives way. -/
def smaller (first second : Float) : Float :=
  if first.isNaN then second
  else if second.isNaN then first
  else if first < second then first else second

/-- The larger number; a value that is not a number gives way. -/
def larger (first second : Float) : Float :=
  if first.isNaN then second
  else if second.isNaN then first
  else if first > second then first else second

/-- Brings a number into an interval; a value that is not a number stays. -/
def clamp (low high value : Float) : Float :=
  if value < low then low else if value > high then high else value

/-- Squares and multiplies along the binary digits of the exponent. -/
def multiplyOut : Nat → Float → Float → Nat → Float
  | 0, product, _, _ => product
  | digits + 1, product, base, exponent =>
    let product := if exponent % 2 = 1 then product * base else product
    if exponent / 2 = 0 then product else multiplyOut digits product (base * base) (exponent / 2)

/-- How many values 32 bits have. -/
def wordCount : Nat := 4294967296

/-- The integer that 32 bits stand for in two's complement. -/
def signed (word : Nat) : Int :=
  if word < wordCount / 2 then (word : Int) else (word : Int) - (wordCount : Int)

/-- A whole power; a negative one is one over the positive power. -/
def power (base : Float) (exponent : Int) : Float :=
  let magnitude := multiplyOut 32 1.0 base exponent.natAbs
  if exponent < 0 then 1.0 / magnitude else magnitude

/-- A schedule never shrinks, and its jitter is at most the whole delay. -/
def ofSettings (initial ceiling : Duration) (multiplier jitter : Float) : Exponential :=
  ⟨initial, ceiling, larger multiplier 1.0, clamp 0.0 1.0 jitter⟩

/-- Doubling from a tenth of a second to five seconds, without jitter. -/
def standard : Exponential := ⟨.ofMillis 100, .ofMillis 5000, 2.0, 0.0⟩

/--
The delay after a failed attempt, whose number is read as a 32-bit word. The draw, between -1 and 1,
chooses how far the jitter moves the delay within its range.
-/
def delay (schedule : Exponential) (draw : Float) (attempt : Nat) : Duration :=
  let ceiling := Float.ofNat schedule.ceiling.wholeMillis
  let base := Float.ofNat schedule.initial.wholeMillis *
    power schedule.multiplier (signed (attempt % wordCount))
  let capped := smaller base ceiling
  let moved := if schedule.jitter > 0.0 then capped + draw * (capped * schedule.jitter)
    else capped + 0.0
  .ofMillis (clamp 0.0 ceiling moved).toUInt64.toNat

/-- The schedule with one draw for each attempt. -/
def backoff (schedule : Exponential) (draws : Nat → Float) : Backoff := fun attempt =>
  schedule.delay (draws attempt) attempt

end Exponential

end ShardedStream
