import ShardedStream.Json.Value

/-!
Reading of strict JSON text: no comments, no trailing commas, no raw control characters in strings,
no unpaired surrogates, and nothing after the value but blanks.
-/

namespace ShardedStream

namespace Json

/-- Control characters may not stand in a string as they are. -/
def isControl (c : Char) : Bool := c.toNat < 32

def hexDigit? (c : Char) : Option Nat :=
  if '0' ≤ c ∧ c ≤ '9' then some (c.toNat - '0'.toNat)
  else if 'a' ≤ c ∧ c ≤ 'f' then some (c.toNat - 'a'.toNat + 10)
  else if 'A' ≤ c ∧ c ≤ 'F' then some (c.toNat - 'A'.toNat + 10)
  else none

/-- Four hexadecimal digits make one code unit. -/
def readUnit : List Char → Option (Nat × List Char)
  | a :: b :: c :: d :: rest => do
    let a ← hexDigit? a
    let b ← hexDigit? b
    let c ← hexDigit? c
    let d ← hexDigit? d
    some (((a * 16 + b) * 16 + c) * 16 + d, rest)
  | _ => none

/-- The first half of a surrogate pair. -/
def isHighSurrogate (unit : Nat) : Bool := 0xD800 ≤ unit && unit ≤ 0xDBFF

/-- The second half of a surrogate pair. -/
def isLowSurrogate (unit : Nat) : Bool := 0xDC00 ≤ unit && unit ≤ 0xDFFF

/-- A surrogate pair stands for one character beyond the first plane. -/
def pairSurrogates (high low : Nat) : Char :=
  Char.ofNat (0x10000 + (high - 0xD800) * 0x400 + (low - 0xDC00))

/-- Reads what follows `\u`; a first surrogate needs its second one. -/
def readCodeUnits (text : List Char) : Option (Char × List Char) :=
  match readUnit text with
  | none => none
  | some (unit, rest) =>
    if isHighSurrogate unit then
      match rest with
      | '\\' :: 'u' :: rest =>
        match readUnit rest with
        | some (low, rest) =>
          if isLowSurrogate low then some (pairSurrogates unit low, rest) else none
        | none => none
      | _ => none
    else if isLowSurrogate unit then none
    else some (Char.ofNat unit, rest)

/-- Reads what follows a backslash. -/
def readEscape : List Char → Option (Char × List Char)
  | '"' :: rest => some ('"', rest)
  | '\\' :: rest => some ('\\', rest)
  | '/' :: rest => some ('/', rest)
  | 'b' :: rest => some ('\x08', rest)
  | 'f' :: rest => some ('\x0c', rest)
  | 'n' :: rest => some ('\n', rest)
  | 'r' :: rest => some ('\r', rest)
  | 't' :: rest => some ('\t', rest)
  | 'u' :: rest => readCodeUnits rest
  | _ => none

theorem readUnit_length {text rest : List Char} {unit : Nat}
    (read : readUnit text = some (unit, rest)) : rest.length < text.length := by
  unfold readUnit at read
  split at read
  · simp only [Option.bind_eq_bind, Option.bind_eq_some_iff, Option.some.injEq,
      Prod.mk.injEq] at read
    obtain ⟨_, _, _, _, _, _, _, _, _, same⟩ := read
    subst same
    simp only [List.length_cons]
    omega
  · cases read

theorem readCodeUnits_length {text rest : List Char} {c : Char}
    (read : readCodeUnits text = some (c, rest)) : rest.length < text.length := by
  unfold readCodeUnits at read
  split at read
  · cases read
  · rename_i unit after first
    have shorter := readUnit_length first
    split at read
    · split at read
      · split at read
        · rename_i second
          have shorter' := readUnit_length second
          split at read
          · simp only [Option.some.injEq, Prod.mk.injEq] at read
            obtain ⟨_, rfl⟩ := read
            simp only [List.length_cons] at shorter
            omega
          · cases read
        · cases read
      · cases read
    · split at read
      · cases read
      · simp only [Option.some.injEq, Prod.mk.injEq] at read
        obtain ⟨_, rfl⟩ := read
        exact shorter

/-- An escape is never empty, so a string ends. -/
theorem readEscape_length {text rest : List Char} {c : Char}
    (read : readEscape text = some (c, rest)) : rest.length < text.length := by
  unfold readEscape at read
  split at read
  case h_9 =>
    have shorter := readCodeUnits_length read
    simp only [List.length_cons]
    omega
  case h_10 => cases read
  all_goals
    cases read
    simp

/-- Reads a string after its opening quote. -/
def readString (text : List Char) : Option (List Char × List Char) :=
  match text with
  | [] => none
  | c :: rest =>
    if c = '"' then some ([], rest)
    else if c = '\\' then
      match _ : readEscape rest with
      | none => none
      | some (c, after) => (readString after).map fun read => (c :: read.1, read.2)
    else if isControl c then none
    else (readString rest).map fun read => (c :: read.1, read.2)
termination_by text.length
decreasing_by
  · have := readEscape_length ‹_›
    simp only [List.length_cons]
    omega
  · simp

/-- A quote ends the string. -/
theorem readString_quote (rest : List Char) : readString ('"' :: rest) = some ([], rest) := by
  rw [readString.eq_def]
  simp

/-- An escape stands for one character. -/
theorem readString_backslash {c : Char} {rest after : List Char}
    (escaped : readEscape rest = some (c, after)) :
    readString ('\\' :: rest) = (readString after).map fun read => (c :: read.1, read.2) := by
  rw [readString.eq_def]
  simp only [Char.reduceEq, if_false, if_true]
  split <;> simp_all

/-- Any other character that is allowed stands for itself. -/
theorem readString_plain {c : Char} (rest : List Char) (quote : c ≠ '"') (backslash : c ≠ '\\')
    (control : isControl c = false) :
    readString (c :: rest) = (readString rest).map fun read => (c :: read.1, read.2) := by
  rw [readString.eq_def]
  simp [quote, backslash, control]

/-- The value of decimal digits. -/
def digitsValue (digits : List Char) : Nat :=
  digits.foldl (fun value c => value * 10 + (c.toNat - '0'.toNat)) 0

/-- Splits off the leading digits, of which there must be one. -/
def readDigits (text : List Char) : Option (List Char × List Char) :=
  let digits := text.takeWhile Char.isDigit
  if digits.isEmpty then none else some (digits, text.dropWhile Char.isDigit)

/-- Reads the digits after a point, when there is one. -/
def readFraction : List Char → Option (Option (List Char) × List Char)
  | '.' :: rest => (readDigits rest).map fun read => (some read.1, read.2)
  | rest => some (none, rest)

/-- Reads the digits of an exponent and its sign. -/
def readPower : List Char → Option (Int × List Char)
  | '-' :: rest => (readDigits rest).map fun read => (-(digitsValue read.1 : Int), read.2)
  | '+' :: rest => (readDigits rest).map fun read => ((digitsValue read.1 : Int), read.2)
  | rest => (readDigits rest).map fun read => ((digitsValue read.1 : Int), read.2)

/-- Reads an exponent, when there is one. -/
def readExponent : List Char → Option (Option Int × List Char)
  | 'e' :: rest => (readPower rest).map fun read => (some read.1, read.2)
  | 'E' :: rest => (readPower rest).map fun read => (some read.1, read.2)
  | rest => some (none, rest)

/-- Reads a number after its sign; a leading zero stands alone. -/
def readMagnitude (negative : Bool) (text : List Char) : Option (Numeral × List Char) := do
  let (whole, rest) ← readDigits text
  if whole.head? = some '0' ∧ whole.length ≠ 1 then none
  let (fraction, rest) ← readFraction rest
  let (power, rest) ← readExponent rest
  let places := fraction.getD []
  some (⟨negative, digitsValue (whole ++ places), power.getD 0 - places.length,
    fraction.isNone && power.isNone⟩, rest)

def readNumber : List Char → Option (Numeral × List Char)
  | '-' :: rest => readMagnitude true rest
  | rest => readMagnitude false rest

/-- Strict texts stand for characters alone, and strict numbers for decimal ones. -/
def strict : Spelling String Numeral where
  text text := (readString text).map fun read => (String.ofList read.1, read.2)
  number := readNumber

/-- Reads a whole text. -/
def parse (text : String) : Option Json := Document.parse strict text

end Json

end ShardedStream
