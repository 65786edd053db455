import ShardedStream.Json.Value

/-!
Writing of JSON text without blanks. Of the characters in a string only those are escaped that
have to be.
-/

namespace ShardedStream

namespace Json

def hexDigit (digit : Nat) : Char :=
  if digit < 10 then Char.ofNat ('0'.toNat + digit) else Char.ofNat ('a'.toNat + (digit - 10))

/-- The short escapes come first; other control characters are written by number. -/
def escape (c : Char) : List Char :=
  if c = '"' then ['\\', '"']
  else if c = '\\' then ['\\', '\\']
  else if c = '\x08' then ['\\', 'b']
  else if c = '\x0c' then ['\\', 'f']
  else if c = '\n' then ['\\', 'n']
  else if c = '\r' then ['\\', 'r']
  else if c = '\t' then ['\\', 't']
  else if c.toNat < 32 then
    ['\\', 'u', '0', '0', hexDigit (c.toNat / 16), hexDigit (c.toNat % 16)]
  else [c]

/-- A string between its quotes. -/
def quoted (text : String) : List Char := '"' :: text.toList.flatMap escape ++ ['"']

def digits (value : Nat) : List Char := Nat.toDigits 10 value

/-- A whole number is written out, any other with its power of ten. -/
def numeral (value : Numeral) : List Char :=
  (if value.negative then ['-'] else []) ++ digits value.mantissa ++
    (if value.isWhole then []
    else if value.exponent < 0 then 'e' :: '-' :: digits value.exponent.natAbs
    else 'e' :: digits value.exponent.natAbs)

mutual

def render : Json → List Char
  | .null => "null".toList
  | .bool true => "true".toList
  | .bool false => "false".toList
  | .number value => numeral value
  | .string value => quoted value
  | .array items => '[' :: renderItems items ++ [']']
  | .object members => '\x7b' :: renderMembers members ++ ['\x7d']

def renderItems : List Json → List Char
  | [] => []
  | [item] => render item
  | item :: next :: rest => render item ++ ',' :: renderItems (next :: rest)

def renderMembers : List (String × Json) → List Char
  | [] => []
  | [member] => quoted member.1 ++ ':' :: render member.2
  | member :: next :: rest =>
    quoted member.1 ++ ':' :: render member.2 ++ ',' :: renderMembers (next :: rest)

end

/-- The text of a value. -/
def print (value : Json) : String := String.ofList (render value)

end Json

end ShardedStream
