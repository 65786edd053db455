/-!
The structure of JSON text: lists, objects and fixed words, over any spelling of texts and numbers.
-/

namespace ShardedStream

/-- A value over some texts `τ` and numbers `ν`. Members keep their order and their repetitions. -/
inductive Document (τ ν : Type) where
  | null
  | bool (value : Bool)
  | number (value : ν)
  | string (value : τ)
  | array (items : List (Document τ ν))
  | object (members : List (τ × Document τ ν))
  deriving Repr, Inhabited

/-- How texts and numbers are spelled. A text is read from behind its opening quote. -/
structure Spelling (τ ν : Type) where
  text : List Char → Option (τ × List Char)
  number : List Char → Option (ν × List Char)

namespace Document

/-- The four blanks of JSON. -/
def isBlank (c : Char) : Bool := c == ' ' || c == '\t' || c == '\n' || c == '\r'

def skipBlanks (text : List Char) : List Char := text.dropWhile isBlank

variable {τ ν : Type}

/-- Reads a fixed word. -/
def readWord (word : List Char) (value : Document τ ν) (text : List Char) :
    Option (Document τ ν × List Char) :=
  if word.isPrefixOf text then some (value, text.drop word.length) else none

mutual

/-- Reads one value; every nested value takes from the fuel. -/
def readValue (spelling : Spelling τ ν) :
    Nat → List Char → Option (Document τ ν × List Char)
  | 0, _ => none
  | fuel + 1, text =>
    match skipBlanks text with
    | '"' :: rest => (spelling.text rest).map fun read => (.string read.1, read.2)
    | '[' :: rest =>
      match skipBlanks rest with
      | ']' :: rest => some (.array [], rest)
      | rest => (readItems spelling fuel rest).map fun read => (.array read.1, read.2)
    | '\x7b' :: rest =>
      match skipBlanks rest with
      | '\x7d' :: rest => some (.object [], rest)
      | rest => (readMembers spelling fuel rest).map fun read => (.object read.1, read.2)
    | 't' :: rest => readWord "rue".toList (.bool true) rest
    | 'f' :: rest => readWord "alse".toList (.bool false) rest
    | 'n' :: rest => readWord "ull".toList .null rest
    | rest => (spelling.number rest).map fun read => (.number read.1, read.2)

/-- Reads the items of an array up to its closing bracket. -/
def readItems (spelling : Spelling τ ν) :
    Nat → List Char → Option (List (Document τ ν) × List Char)
  | 0, _ => none
  | fuel + 1, text =>
    match readValue spelling fuel text with
    | none => none
    | some (item, rest) =>
      match skipBlanks rest with
      | ',' :: rest => (readItems spelling fuel rest).map fun read => (item :: read.1, read.2)
      | ']' :: rest => some ([item], rest)
      | _ => none

/-- Reads the members of an object up to its closing brace. -/
def readMembers (spelling : Spelling τ ν) :
    Nat → List Char → Option (List (τ × Document τ ν) × List Char)
  | 0, _ => none
  | fuel + 1, text =>
    match skipBlanks text with
    | '"' :: rest =>
      match spelling.text rest with
      | none => none
      | some (name, rest) =>
        match skipBlanks rest with
        | ':' :: rest =>
          match readValue spelling fuel rest with
          | none => none
          | some (value, rest) =>
            match skipBlanks rest with
            | ',' :: rest =>
              (readMembers spelling fuel rest).map fun read => ((name, value) :: read.1, read.2)
            | '\x7d' :: rest => some ([(name, value)], rest)
            | _ => none
        | _ => none
    | _ => none

end

/--
Reads a whole text, with nothing after the value but blanks. A list takes two units of fuel and has
two brackets, and each further item takes one unit and has a comma, so the fuel suffices.
-/
def parse (spelling : Spelling τ ν) (text : String) : Option (Document τ ν) :=
  match readValue spelling (text.toList.length + 1) text.toList with
  | some (value, rest) => if (skipBlanks rest).isEmpty then some value else none
  | none => none

end Document

end ShardedStream
