import ShardedStream.Json.Document

/-!
JSON values.
-/

namespace ShardedStream

/-- A number as written: `mantissa * 10 ^ exponent`, and whether it has no point or exponent. -/
structure Numeral where
  negative : Bool
  mantissa : Nat
  exponent : Int
  isWhole : Bool
  deriving DecidableEq, Repr, Inhabited

/-- JSON as the library writes it and keeps it. -/
abbrev Json := Document String Numeral

end ShardedStream
