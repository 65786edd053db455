import ShardedStream.Json.Parse
import ShardedStream.Json.Print
import Mathlib.Data.List.Basic

/-!
The spellings of a text.
A character stands for itself unless it is a quote, a backslash or a control character. Some have a
short escape, and each can be written by its code units, in digits of either case.
-/

namespace ShardedStream
namespace Json

/-- The letters of the short escapes, with the characters that they stand for. -/
def shortEscapes : List (Char × Char) :=
  [('"', '"'), ('\\', '\\'), ('/', '/'), ('b', '\x08'), ('f', '\x0c'), ('n', '\n'), ('r', '\r'),
    ('t', '\t')]

/-- A digit may be written in either case. -/
def SpellsDigit (digit : Nat) (c : Char) : Prop :=
  digit < 16 ∧ (c = hexDigit digit ∨ c = (hexDigit digit).toUpper)

/-- A code unit has four digits. -/
inductive SpellsUnit : Nat → List Char → Prop where
  | digits {first second third fourth : Nat} {a b c d : Char} (spellsA : SpellsDigit first a)
      (spellsB : SpellsDigit second b) (spellsC : SpellsDigit third c)
      (spellsD : SpellsDigit fourth d) :
      SpellsUnit (((first * 16 + second) * 16 + third) * 16 + fourth) [a, b, c, d]

/-- What may follow a backslash. -/
inductive SpellsEscape : Char → List Char → Prop where
  | short {letter c : Char} (listed : (letter, c) ∈ shortEscapes) : SpellsEscape c [letter]
  | unit {c : Char} {digits : List Char} (spells : SpellsUnit c.toNat digits) :
      SpellsEscape c ('u' :: digits)
  /-- A character beyond the first plane is written by a pair of surrogates. -/
  | pair {c : Char} {high low : Nat} {first second : List Char}
      (isHigh : isHighSurrogate high = true) (isLow : isLowSurrogate low = true)
      (spellsHigh : SpellsUnit high first) (spellsLow : SpellsUnit low second)
      (stands : c.toNat = 0x10000 + (high - 0xD800) * 0x400 + (low - 0xDC00)) :
      SpellsEscape c ('u' :: (first ++ '\\' :: 'u' :: second))

inductive SpellsChar : Char → List Char → Prop where
  | plain {c : Char} (quote : c ≠ '"') (backslash : c ≠ '\\') (control : isControl c = false) :
      SpellsChar c [c]
  | escaped {c : Char} {spelled : List Char} (spells : SpellsEscape c spelled) :
      SpellsChar c ('\\' :: spelled)

/-- The spellings of a text between its quotes, character by character. -/
inductive SpellsText : List Char → List Char → Prop where
  | nil : SpellsText [] []
  | cons {c : Char} {text spelled rest : List Char} (first : SpellsChar c spelled)
      (others : SpellsText text rest) : SpellsText (c :: text) (spelled ++ rest)

variable {text rest spelled : List Char} {unit : Nat} {c : Char}

/-- All characters of which a digit can be made are among the first ones. -/
theorem spellsDigit_of_ascii : ∀ code < 128,
    (∀ digit ∈ hexDigit? (Char.ofNat code), SpellsDigit digit (Char.ofNat code)) ∧
    ∀ digit < 16,
      Char.ofNat code = hexDigit digit ∨ Char.ofNat code = (hexDigit digit).toUpper →
        hexDigit? (Char.ofNat code) = some digit := by
  unfold SpellsDigit
  decide +kernel

theorem hexDigit?_eq_some_iff {digit : Nat} :
    hexDigit? c = some digit ↔ SpellsDigit digit c := by
  by_cases ascii : c.toNat < 128
  · have both := spellsDigit_of_ascii c.toNat ascii
    rw [Char.ofNat_toNat] at both
    exact ⟨both.1 digit, fun spells => both.2 digit spells.1 spells.2⟩
  · constructor
    · intro read
      simp only [hexDigit?, Char.le_def, UInt32.le_iff_toNat_le] at read
      have big : 128 ≤ c.val.toNat := Nat.le_of_not_lt ascii
      repeat rw [if_neg (by simp; omega)] at read
      cases read
    · rintro ⟨small, same⟩
      have codes : ∀ digit < 16, (hexDigit digit).toNat < 128 ∧
          (hexDigit digit).toUpper.toNat < 128 := by decide
      rcases same with rfl | rfl
      · exact absurd (codes digit small).1 ascii
      · exact absurd (codes digit small).2 ascii

theorem readUnit_eq_some_iff :
    readUnit text = some (unit, rest) ↔
      ∃ digits, SpellsUnit unit digits ∧ text = digits ++ rest := by
  constructor
  · intro read
    unfold readUnit at read
    split at read
    · simp only [Option.bind_eq_bind, Option.bind_eq_some_iff, hexDigit?_eq_some_iff,
        Option.some.injEq, Prod.mk.injEq] at read
      obtain ⟨_, first, _, second, _, third, _, fourth, rfl, rfl⟩ := read
      exact ⟨_, .digits first second third fourth, rfl⟩
    · cases read
  · rintro ⟨_, ⟨first, second, third, fourth⟩, rfl⟩
    simp [readUnit, hexDigit?_eq_some_iff.mpr first, hexDigit?_eq_some_iff.mpr second,
      hexDigit?_eq_some_iff.mpr third, hexDigit?_eq_some_iff.mpr fourth]

/-- A unit has no more than sixteen bits. -/
theorem SpellsUnit.lt {digits : List Char} (spells : SpellsUnit unit digits) : unit < 65536 := by
  obtain ⟨⟨_, _⟩, ⟨_, _⟩, ⟨_, _⟩, ⟨_, _⟩⟩ := spells
  omega

/-- A unit that is half of no pair is a character by itself. -/
theorem toNat_ofNat_unit (small : unit < 65536) (high : isHighSurrogate unit = false)
    (low : isLowSurrogate unit = false) : (Char.ofNat unit).toNat = unit := by
  simp only [isHighSurrogate, isLowSurrogate, Bool.and_eq_false_iff, decide_eq_false_iff_not] at *
  have valid : unit.isValidChar := by
    unfold Nat.isValidChar
    omega
  rw [Char.ofNat, dif_pos valid]
  rfl

theorem toNat_pairSurrogates {high low : Nat} (isHigh : isHighSurrogate high = true)
    (isLow : isLowSurrogate low = true) :
    (pairSurrogates high low).toNat = 0x10000 + (high - 0xD800) * 0x400 + (low - 0xDC00) := by
  simp only [isHighSurrogate, isLowSurrogate, Bool.and_eq_true, decide_eq_true_eq] at *
  have valid : (0x10000 + (high - 0xD800) * 0x400 + (low - 0xDC00)).isValidChar := by
    unfold Nat.isValidChar
    omega
  rw [pairSurrogates, Char.ofNat, dif_pos valid]
  rfl

/-- A character is half of no pair. -/
theorem not_surrogate (c : Char) :
    isHighSurrogate c.toNat = false ∧ isLowSurrogate c.toNat = false := by
  have valid := c.valid
  simp only [isHighSurrogate, isLowSurrogate, Bool.and_eq_false_iff, decide_eq_false_iff_not]
  unfold UInt32.isValidChar Nat.isValidChar at valid
  change (¬ _ ≤ c.val.toNat ∨ ¬ c.val.toNat ≤ _) ∧ (¬ _ ≤ c.val.toNat ∨ ¬ c.val.toNat ≤ _)
  omega

theorem spells_of_readCodeUnits (read : readCodeUnits text = some (c, rest)) :
    ∃ units, SpellsEscape c ('u' :: units) ∧ text = units ++ rest := by
  unfold readCodeUnits at read
  split at read
  · cases read
  rename_i unit after readFirst
  obtain ⟨first, spells, rfl⟩ := readUnit_eq_some_iff.mp readFirst
  split at read
  · rename_i isHigh
    split at read
    · rename_i behind
      split at read
      · rename_i low after readSecond
        obtain ⟨second, spellsLow, rfl⟩ := readUnit_eq_some_iff.mp readSecond
        split at read
        · rename_i isLow
          simp only [Option.some.injEq, Prod.mk.injEq] at read
          obtain ⟨rfl, rfl⟩ := read
          exact ⟨_, .pair isHigh isLow spells spellsLow (toNat_pairSurrogates isHigh isLow),
            by simp⟩
        · cases read
      · cases read
    · cases read
  · rename_i notHigh
    split at read
    · cases read
    · rename_i notLow
      cases read
      have same := toNat_ofNat_unit spells.lt (by simpa using notHigh) (by simpa using notLow)
      exact ⟨first, .unit (same.symm ▸ spells), rfl⟩

theorem readCodeUnits_of_spells {units : List Char} (spells : SpellsEscape c ('u' :: units)) :
    readCodeUnits (units ++ rest) = some (c, rest) := by
  generalize same : 'u' :: units = escaped at spells
  cases spells with
  | @short letter _ listed =>
      obtain ⟨rfl, rfl⟩ := List.cons.inj same
      simp [shortEscapes] at listed
  | unit spells =>
      obtain ⟨-, rfl⟩ := List.cons.inj same
      have apart := not_surrogate c
      rw [readCodeUnits, readUnit_eq_some_iff.mpr ⟨_, spells, rfl⟩]
      simp [apart.1, apart.2, Char.ofNat_toNat]
  | @pair _ high low first second isHigh isLow spellsHigh spellsLow stands =>
      obtain ⟨-, rfl⟩ := List.cons.inj same
      have same : pairSurrogates high low = c := by
        rw [← Char.toNat_inj, toNat_pairSurrogates isHigh isLow, stands]
      rw [readCodeUnits, readUnit_eq_some_iff.mpr ⟨_, spellsHigh, List.append_assoc _ _ _⟩]
      simp [isHigh, isLow, readUnit_eq_some_iff.mpr ⟨_, spellsLow, rfl⟩, same]

theorem readEscape_eq_some_iff :
    readEscape text = some (c, rest) ↔
      ∃ spelled, SpellsEscape c spelled ∧ text = spelled ++ rest := by
  constructor
  · intro read
    unfold readEscape at read
    split at read
    case h_9 =>
      obtain ⟨units, spells, rfl⟩ := spells_of_readCodeUnits read
      exact ⟨_, spells, rfl⟩
    case h_10 => cases read
    all_goals
      cases read
      exact ⟨_, .short (by decide), rfl⟩
  · rintro ⟨spelled, spells, rfl⟩
    cases spells with
    | short listed =>
        simp only [shortEscapes, List.mem_cons, Prod.mk.injEq, List.not_mem_nil, or_false] at listed
        rcases listed with ⟨rfl, rfl⟩ | ⟨rfl, rfl⟩ | ⟨rfl, rfl⟩ | ⟨rfl, rfl⟩ | ⟨rfl, rfl⟩ |
          ⟨rfl, rfl⟩ | ⟨rfl, rfl⟩ | ⟨rfl, rfl⟩ <;> rfl
    | unit spells => exact readCodeUnits_of_spells (.unit spells)
    | pair isHigh isLow spellsHigh spellsLow stands =>
        exact readCodeUnits_of_spells (.pair isHigh isLow spellsHigh spellsLow stands)

/-- A text is read off each of its spellings, and off nothing else. -/
theorem readString_eq_some_iff {read : List Char} :
    readString text = some (read, rest) ↔
      ∃ spelled, SpellsText read spelled ∧ text = spelled ++ '"' :: rest := by
  constructor
  · intro found
    fun_induction readString text generalizing read with
    | case1 => cases found
    | case2 after =>
        cases found
        exact ⟨[], .nil, rfl⟩
    | case3 => cases found
    | case4 after c others escaped _ inductionHypothesis =>
        obtain ⟨_, readOthers, same⟩ := Option.map_eq_some_iff.mp found
        cases same
        obtain ⟨spelled, spells, rfl⟩ := readEscape_eq_some_iff.mp escaped
        obtain ⟨_, spellsOthers, rfl⟩ := inductionHypothesis readOthers
        exact ⟨_, .cons (.escaped spells) spellsOthers, by simp⟩
    | case5 => cases found
    | case6 c after quote backslash control inductionHypothesis =>
        obtain ⟨_, readOthers, same⟩ := Option.map_eq_some_iff.mp found
        cases same
        obtain ⟨_, spellsOthers, rfl⟩ := inductionHypothesis readOthers
        exact ⟨_, .cons (.plain quote backslash (by simpa using control)) spellsOthers, rfl⟩
  · rintro ⟨spelled, spells, rfl⟩
    induction spells with
    | nil => exact readString_quote rest
    | cons first _ inductionHypothesis =>
        cases first with
        | plain quote backslash control =>
            rw [List.append_assoc, List.singleton_append,
              readString_plain _ quote backslash control, inductionHypothesis]
            rfl
        | escaped spells =>
            rw [List.append_assoc, List.cons_append,
              readString_backslash (readEscape_eq_some_iff.mpr ⟨_, spells, rfl⟩),
              inductionHypothesis]
            rfl

/-- A control character without a short escape is written by number. -/
theorem spellsEscape_control (control : c.toNat < 32) :
    SpellsEscape c ['u', '0', '0', hexDigit (c.toNat / 16), hexDigit (c.toNat % 16)] := by
  have zero : SpellsDigit 0 '0' := ⟨by decide, .inl rfl⟩
  have high : SpellsDigit (c.toNat / 16) (hexDigit (c.toNat / 16)) := ⟨by omega, .inl rfl⟩
  have low : SpellsDigit (c.toNat % 16) (hexDigit (c.toNat % 16)) := ⟨by omega, .inl rfl⟩
  have unit : SpellsUnit _ _ := .digits zero zero high low
  rw [show ((0 * 16 + 0) * 16 + c.toNat / 16) * 16 + c.toNat % 16 = c.toNat by omega] at unit
  exact .unit unit

/-- What is written for a character spells it. -/
theorem spellsChar_escape (c : Char) : SpellsChar c (escape c) := by
  unfold escape
  split_ifs with quote backslash backspace feed newline back tab control
  iterate 7
    · subst c
      exact .escaped (.short (by decide))
  · exact .escaped (spellsEscape_control control)
  · exact .plain quote backslash (by simpa [isControl] using control)

theorem spellsText_escape (text : List Char) : SpellsText text (text.flatMap escape) := by
  induction text with
  | nil => exact .nil
  | cons c text inductionHypothesis => exact .cons (spellsChar_escape c) inductionHypothesis

end Json
end ShardedStream
