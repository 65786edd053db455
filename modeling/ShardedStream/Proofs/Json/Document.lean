import ShardedStream.Proofs.Json.Text
import Mathlib.Data.List.DropRight

/-!
The spellings of the documents that are kept: a text or nothing, or one object of these.
Blanks may stand between any two tokens, and an object may have its members in any order and
repeat them.
-/

namespace ShardedStream
namespace Json

open Document

def Blank (text : List Char) : Prop := ∀ c ∈ text, isBlank c = true

inductive IsLeaf : Json → Prop where
  | null : IsLeaf .null
  | string (text : String) : IsLeaf (.string text)

inductive SpellsLeaf : Json → List Char → Prop where
  | null : SpellsLeaf .null "null".toList
  | string {text : String} {body : List Char} (spells : SpellsText text.toList body) :
      SpellsLeaf (.string text) ('"' :: body ++ ['"'])

/-- A member with the blanks around its tokens. -/
inductive SpellsMember : String × Json → List Char → Prop where
  | colon {name : String} {value : Json} {before body between after spelled behind : List Char}
      (blankBefore : Blank before) (spellsName : SpellsText name.toList body)
      (blankBetween : Blank between) (blankAfter : Blank after)
      (spellsValue : SpellsLeaf value spelled) (blankBehind : Blank behind) :
      SpellsMember (name, value)
        (before ++ '"' :: (body ++ '"' :: (between ++ ':' :: (after ++ (spelled ++ behind)))))

inductive SpellsMembers : List (String × Json) → List Char → Prop where
  | last {member : String × Json} {text : List Char} (only : SpellsMember member text) :
      SpellsMembers [member] text
  | more {member : String × Json} {members : List (String × Json)} {text rest : List Char}
      (first : SpellsMember member text) (others : SpellsMembers members rest) :
      SpellsMembers (member :: members) (text ++ ',' :: rest)

/-- The spellings of a document, up to its last token. -/
inductive Spells : Json → List Char → Prop where
  | leaf {value : Json} {before spelled : List Char} (blankBefore : Blank before)
      (spells : SpellsLeaf value spelled) : Spells value (before ++ spelled)
  | nothing {before between : List Char} (blankBefore : Blank before)
      (blankBetween : Blank between) :
      Spells (.object []) (before ++ '\x7b' :: (between ++ ['\x7d']))
  | object {members : List (String × Json)} {before spelled : List Char}
      (blankBefore : Blank before) (spells : SpellsMembers members spelled) :
      Spells (.object members) (before ++ '\x7b' :: (spelled ++ ['\x7d']))

/-- A document in which nothing but leaves is kept. -/
inductive IsFlat : Json → Prop where
  | leaf {value : Json} (isLeaf : IsLeaf value) : IsFlat value
  | object {members : List (String × Json)} (leaves : ∀ member ∈ members, IsLeaf member.2) :
      IsFlat (.object members)

variable {text rest spelled before : List Char} {value : Json} {members : List (String × Json)}
  {fuel : Nat}

theorem blank_nil : Blank [] := fun _ listed => absurd listed List.not_mem_nil

theorem exists_blank (text : List Char) :
    ∃ before, Blank before ∧ text = before ++ skipBlanks text :=
  ⟨text.takeWhile isBlank, fun _ member => List.mem_takeWhile_imp member,
    List.takeWhile_append_dropWhile.symm⟩

theorem skipBlanks_append {c : Char} (blank : Blank before) (token : isBlank c = false) :
    skipBlanks (before ++ c :: rest) = c :: rest := by
  rw [skipBlanks, List.dropWhile_append_of_pos blank, List.dropWhile_cons_of_neg (by simp [token])]

theorem blank_iff : Blank text ↔ (skipBlanks text).isEmpty = true := by
  simp [Blank, skipBlanks, List.dropWhile_eq_nil_iff]

theorem readMembers_skipBlanks (text : List Char) :
    readMembers strict fuel (skipBlanks text) = readMembers strict fuel text := by
  cases fuel with
  | zero => rfl
  | succ fuel => rw [readMembers, readMembers, skipBlanks, skipBlanks, List.dropWhile_idempotent]

/-- What spells a leaf is read as that leaf. -/
theorem SpellsLeaf.read (spells : SpellsLeaf value spelled) (blank : Blank before) :
    readValue strict (fuel + 1) (before ++ (spelled ++ rest)) = some (value, rest) := by
  cases spells with
  | null =>
      have token : skipBlanks (before ++ ("null".toList ++ rest)) = 'n' :: ("ull".toList ++ rest) :=
        skipBlanks_append blank (by decide)
      rw [readValue, token]
      simp [readWord]
  | @string text body spells =>
      have token : skipBlanks (before ++ ('"' :: body ++ ['"'] ++ rest)) =
          '"' :: (body ++ '"' :: rest) := by
        rw [List.append_assoc]
        exact skipBlanks_append blank (by decide)
      have read : readString (body ++ '"' :: rest) = some (text.toList, rest) :=
        readString_eq_some_iff.mpr ⟨body, spells, rfl⟩
      rw [readValue, token]
      simp [strict, read]

/-- A word is read off itself alone. -/
theorem readWord_eq_some {word : List Char} {document : Json}
    (read : readWord word value text = some (document, rest)) :
    document = value ∧ text = word ++ rest := by
  unfold readWord at read
  split at read
  · rename_i isWord
    cases read
    exact ⟨rfl, (List.prefix_iff_eq_append.mp (List.isPrefixOf_iff_prefix.mp isWord)).symm⟩
  · cases read

/--
The first token tells what is read: a text, nothing, an object without members, or an object with
some.
-/
theorem flat_of_read {document : Json}
    (read : readValue strict (fuel + 1) text = some (document, rest)) (flat : IsFlat document) :
    (∃ name body, document = .string name ∧ SpellsText name.toList body ∧
      skipBlanks text = '"' :: body ++ ['"'] ++ rest) ∨
    (document = .null ∧ skipBlanks text = "null".toList ++ rest) ∨
    (document = .object [] ∧
      ∃ inner, skipBlanks text = '\x7b' :: inner ∧ skipBlanks inner = '\x7d' :: rest) ∨
    ∃ members inner, document = .object members ∧ skipBlanks text = '\x7b' :: inner ∧
      readMembers strict fuel inner = some (members, rest) := by
  rw [readValue] at read
  split at read
  case h_1 after token =>
    obtain ⟨⟨_, _⟩, readText, whole⟩ := Option.map_eq_some_iff.mp read
    cases whole
    obtain ⟨⟨characters, _⟩, readCharacters, whole⟩ := Option.map_eq_some_iff.mp readText
    cases whole
    obtain ⟨body, spells, rfl⟩ := readString_eq_some_iff.mp readCharacters
    exact .inl ⟨_, body, rfl, by simpa using spells, by simpa using token⟩
  case h_3 inner opening =>
    split at read
    · rename_i closing
      cases read
      exact .inr (.inr (.inl ⟨rfl, inner, opening, closing⟩))
    · obtain ⟨⟨members, _⟩, readMembers, whole⟩ := Option.map_eq_some_iff.mp read
      cases whole
      rw [readMembers_skipBlanks] at readMembers
      exact .inr (.inr (.inr ⟨members, inner, rfl, opening, readMembers⟩))
  case h_6 after token =>
    obtain ⟨rfl, rfl⟩ := readWord_eq_some read
    exact .inr (.inl ⟨rfl, token⟩)
  case h_2 =>
    split at read
    · cases read
      obtain ⟨⟨⟩⟩ := flat
    · obtain ⟨_, _, whole⟩ := Option.map_eq_some_iff.mp read
      cases whole
      obtain ⟨⟨⟩⟩ := flat
  case h_7 =>
    obtain ⟨_, _, whole⟩ := Option.map_eq_some_iff.mp read
    cases whole
    obtain ⟨⟨⟩⟩ := flat
  all_goals
    obtain ⟨rfl, _⟩ := readWord_eq_some read
    obtain ⟨⟨⟩⟩ := flat

/-- Whatever is read as a leaf spells it. -/
theorem spellsLeaf_of_read (read : readValue strict fuel text = some (value, rest))
    (isLeaf : IsLeaf value) :
    ∃ before spelled, Blank before ∧ SpellsLeaf value spelled ∧
      text = before ++ (spelled ++ rest) := by
  obtain ⟨before, blank, same⟩ := exists_blank text
  cases fuel with
  | zero => cases read
  | succ fuel =>
      rcases flat_of_read read (.leaf isLeaf) with
        ⟨name, body, rfl, spells, token⟩ | ⟨rfl, token⟩ | ⟨rfl, _⟩ | ⟨_, _, rfl, _⟩
      · exact ⟨before, _, blank, .string spells, token ▸ same⟩
      · exact ⟨before, _, blank, .null, token ▸ same⟩
      · cases isLeaf
      · cases isLeaf

/-- What spells a member is read as that member, whether others follow or not. -/
theorem SpellsMember.read {member : String × Json} (spells : SpellsMember member spelled)
    (rest : List Char) :
    readMembers strict (fuel + 2) (spelled ++ '\x7d' :: rest) = some ([member], rest) ∧
    readMembers strict (fuel + 2) (spelled ++ ',' :: rest) =
      (readMembers strict (fuel + 1) rest).map fun read => (member :: read.1, read.2) := by
  cases spells with
  | @colon name value before body between after inner behind blankBefore spellsName blankBetween
      blankAfter spellsValue blankBehind =>
      have opening (rest : List Char) : skipBlanks (before ++ '"' :: (body ++ '"' :: (between ++
          ':' :: (after ++ (inner ++ behind)))) ++ rest) = '"' :: (body ++ '"' :: (between ++
          ':' :: (after ++ (inner ++ (behind ++ rest))))) := by
        simpa using skipBlanks_append (c := '"') blankBefore (by decide)
      have name (rest : List Char) : strict.text (body ++ '"' :: rest) = some (name, rest) := by
        simp [strict, readString_eq_some_iff.mpr ⟨body, spellsName, rfl⟩]
      have colon (rest : List Char) : skipBlanks (between ++ ':' :: rest) = ':' :: rest :=
        skipBlanks_append blankBetween (by decide)
      constructor
      · have last : skipBlanks (behind ++ '\x7d' :: rest) = '\x7d' :: rest :=
          skipBlanks_append blankBehind (by decide)
        rw [readMembers, opening]
        simp only [name, colon, spellsValue.read blankAfter, last]
      · have more : skipBlanks (behind ++ ',' :: rest) = ',' :: rest :=
          skipBlanks_append blankBehind (by decide)
        rw [readMembers, opening]
        simp only [name, colon, spellsValue.read blankAfter, more]

/-- What spells members is read as these members. -/
theorem SpellsMembers.read (spells : SpellsMembers members spelled)
    (enough : members.length < fuel) :
    readMembers strict fuel (spelled ++ '\x7d' :: rest) = some (members, rest) := by
  induction spells generalizing fuel with
  | last only =>
      obtain ⟨fuel, rfl⟩ := Nat.exists_eq_add_of_le' enough
      exact (only.read rest).1
  | @more member members text behind first others inductionHypothesis =>
      obtain ⟨fuel, rfl⟩ := Nat.exists_eq_add_of_le' (Nat.le_trans (Nat.le_add_left 2 _) enough)
      have few : members.length < fuel + 1 := Nat.lt_of_succ_lt_succ enough
      rw [List.append_assoc, List.cons_append, (first.read _).2, inductionHypothesis few]
      rfl

/-- The first of the members that are read is spelled in front of what the others are read from. -/
theorem spellsMember_of_read (read : readMembers strict (fuel + 1) text = some (members, rest))
    (leaves : ∀ member ∈ members, IsLeaf member.2) :
    ∃ member spelled, SpellsMember member spelled ∧
      ((members = [member] ∧ text = spelled ++ '\x7d' :: rest) ∨
        ∃ others after, members = member :: others ∧ text = spelled ++ ',' :: after ∧
          readMembers strict fuel after = some (others, rest)) := by
  obtain ⟨before, blankBefore, same⟩ := exists_blank text
  rw [readMembers] at read
  split at read
  case h_2 => cases read
  rename_i inner opening
  split at read
  · cases read
  rename_i name _ readName
  obtain ⟨⟨characters, afterName⟩, readCharacters, whole⟩ := Option.map_eq_some_iff.mp readName
  cases whole
  obtain ⟨body, spellsName, rfl⟩ := readString_eq_some_iff.mp readCharacters
  obtain ⟨between, blankBetween, sameBetween⟩ := exists_blank afterName
  split at read
  case h_2 => cases read
  rename_i behindColon colon
  split at read
  · cases read
  rename_i value afterValue readValue
  obtain ⟨behind, blankBehind, sameBehind⟩ := exists_blank afterValue
  have spells (isLeaf : IsLeaf value) : ∃ spelled,
      SpellsMember (String.ofList characters, value) spelled ∧
        text = spelled ++ skipBlanks afterValue := by
    obtain ⟨after, spelled, blankAfter, spellsValue, sameAfter⟩ :=
      spellsLeaf_of_read readValue isLeaf
    refine ⟨_, .colon blankBefore (by simpa using spellsName) blankBetween blankAfter spellsValue
      blankBehind, ?_⟩
    rw [same, opening, sameBetween, colon, sameAfter]
    simp [← sameBehind]
  split at read
  · rename_i after comma
    obtain ⟨⟨others, _⟩, readOthers, whole⟩ := Option.map_eq_some_iff.mp read
    cases whole
    obtain ⟨spelled, spellsFirst, rfl⟩ := spells (leaves _ List.mem_cons_self)
    exact ⟨_, spelled, spellsFirst, .inr ⟨others, after, rfl, by rw [comma], readOthers⟩⟩
  · rename_i closing
    cases read
    obtain ⟨spelled, spellsOnly, rfl⟩ := spells (leaves _ List.mem_cons_self)
    exact ⟨_, spelled, spellsOnly, .inl ⟨rfl, by rw [closing]⟩⟩
  · cases read

/-- Whatever is read as members with nothing but leaves spells these. -/
theorem spellsMembers_of_read (read : readMembers strict fuel text = some (members, rest))
    (leaves : ∀ member ∈ members, IsLeaf member.2) :
    ∃ spelled, SpellsMembers members spelled ∧ text = spelled ++ '\x7d' :: rest := by
  induction fuel generalizing text members with
  | zero => cases read
  | succ fuel inductionHypothesis =>
      obtain ⟨member, spelled, spells, ⟨rfl, rfl⟩ | ⟨others, after, rfl, rfl, readOthers⟩⟩ :=
        spellsMember_of_read read leaves
      · exact ⟨spelled, .last spells, rfl⟩
      · obtain ⟨_, spellsOthers, rfl⟩ :=
          inductionHypothesis readOthers (List.forall_mem_cons.mp leaves).2
        exact ⟨_, .more spells spellsOthers, by simp⟩

theorem SpellsMembers.length_le (spells : SpellsMembers members spelled) :
    members.length ≤ spelled.length := by
  induction spells with
  | last only =>
      cases only
      simp
      omega
  | more first others inductionHypothesis =>
      simp
      omega

/-- Members begin with a quote, so that they are not taken for the end of an object. -/
theorem SpellsMembers.skipBlanks_eq (spells : SpellsMembers members spelled) (rest : List Char) :
    ∃ after, skipBlanks (spelled ++ rest) = '"' :: after := by
  cases spells with
  | last only =>
      cases only with
      | colon blank => exact ⟨_, by simpa using skipBlanks_append (c := '"') blank (by decide)⟩
  | more first _ =>
      cases first with
      | colon blank => exact ⟨_, by simpa using skipBlanks_append (c := '"') blank (by decide)⟩

/-- A document is read off each of its spellings. -/
theorem Spells.read {document : Json} (spells : Spells document spelled)
    (enough : spelled.length ≤ fuel) :
    readValue strict (fuel + 1) (spelled ++ rest) = some (document, rest) := by
  cases spells with
  | leaf blank spells => rw [List.append_assoc, spells.read blank]
  | @nothing before between blankBefore blankBetween =>
      have opening : skipBlanks (before ++ '\x7b' :: (between ++ ['\x7d']) ++ rest) =
          '\x7b' :: (between ++ '\x7d' :: rest) := by
        simpa using skipBlanks_append blankBefore (by decide)
      have closing : skipBlanks (between ++ '\x7d' :: rest) = '\x7d' :: rest :=
        skipBlanks_append blankBetween (by decide)
      rw [readValue, opening]
      simp only [closing]
  | @object members before spelled blankBefore spells =>
      have opening : skipBlanks (before ++ '\x7b' :: (spelled ++ ['\x7d']) ++ rest) =
          '\x7b' :: (spelled ++ '\x7d' :: rest) := by
        simpa using skipBlanks_append blankBefore (by decide)
      have enough : members.length < fuel := by
        have := spells.length_le
        simp at enough
        omega
      obtain ⟨after, quote⟩ := spells.skipBlanks_eq ('\x7d' :: rest)
      have read : readMembers strict fuel (spelled ++ '\x7d' :: rest) = some (members, rest) :=
        spells.read enough
      rw [← readMembers_skipBlanks, quote] at read
      rw [readValue, opening]
      simp only [quote]
      change (readMembers strict fuel _).map _ = _
      rw [read]
      rfl

/-- Whatever is read as a document with nothing but leaves spells it. -/
theorem spells_of_read {document : Json}
    (read : readValue strict fuel text = some (document, rest)) (flat : IsFlat document) :
    ∃ spelled, Spells document spelled ∧ text = spelled ++ rest := by
  obtain ⟨before, blank, same⟩ := exists_blank text
  cases fuel with
  | zero => cases read
  | succ fuel =>
      rcases flat_of_read read flat with ⟨name, body, rfl, spells, token⟩ | ⟨rfl, token⟩ |
        ⟨rfl, inner, opening, closing⟩ | ⟨members, inner, rfl, opening, readInner⟩
      · exact ⟨_, .leaf blank (.string spells), by rw [same, token]; simp⟩
      · exact ⟨_, .leaf blank .null, by rw [same, token, List.append_assoc]⟩
      · obtain ⟨between, blankBetween, sameBetween⟩ := exists_blank inner
        refine ⟨_, .nothing blank blankBetween, ?_⟩
        rw [same, opening, sameBetween, closing]
        simp
      · have leaves : ∀ member ∈ members, IsLeaf member.2 := by
          cases flat with
          | object leaves => exact leaves
          | leaf isLeaf => cases isLeaf
        obtain ⟨spelled, spells, rfl⟩ := spellsMembers_of_read readInner leaves
        refine ⟨_, .object blank spells, ?_⟩
        rw [same, opening]
        simp

/-- Blanks may also follow the document. -/
def SpelledBy (document : Json) (text : String) : Prop :=
  ∃ spelled after, Spells document spelled ∧ Blank after ∧ text.toList = spelled ++ after

/-- A flat document is read off each of its spellings, and off nothing else. -/
theorem parse_eq_some_iff {text : String} {document : Json} (flat : IsFlat document) :
    Json.parse text = some document ↔ SpelledBy document text := by
  unfold Json.parse Document.parse
  constructor
  · intro read
    split at read
    · rename_i found after readFound
      split at read
      · rename_i blank
        cases read
        obtain ⟨spelled, spells, same⟩ := spells_of_read readFound flat
        exact ⟨spelled, after, spells, blank_iff.mpr blank, same⟩
      · cases read
    · cases read
  · rintro ⟨spelled, after, spells, blank, same⟩
    rw [same, spells.read (by simp)]
    exact if_pos (blank_iff.mp blank)

/-- Whatever is read off flat documents is read off their spellings, and off nothing else. -/
theorem bind_parse_eq_some_iff {text : String} {α : Type} {ofJson? : Json → Option α} {value : α}
    (flat : ∀ document, ofJson? document = some value → IsFlat document) :
    (Json.parse text).bind ofJson? = some value ↔
      ∃ document, ofJson? document = some value ∧ SpelledBy document text := by
  rw [Option.bind_eq_some_iff]
  constructor
  · rintro ⟨document, parsed, read⟩
    exact ⟨document, read, (parse_eq_some_iff (flat document read)).mp parsed⟩
  · rintro ⟨document, read, spelled⟩
    exact ⟨document, (parse_eq_some_iff (flat document read)).mpr spelled, read⟩

theorem spellsLeaf_render (isLeaf : IsLeaf value) : SpellsLeaf value (render value) := by
  cases isLeaf with
  | null => exact .null
  | string text => exact .string (spellsText_escape text.toList)

/-- A member is written without blanks. -/
theorem spellsMember_render {member : String × Json} (isLeaf : IsLeaf member.2) :
    SpellsMember member (quoted member.1 ++ ':' :: render member.2) := by
  have spells : SpellsMember (member.1, member.2) _ :=
    .colon blank_nil (spellsText_escape _) blank_nil blank_nil (spellsLeaf_render isLeaf) blank_nil
  simpa [quoted] using spells

theorem spellsMembers_render (leaves : ∀ member ∈ members, IsLeaf member.2)
    (inhabited : members ≠ []) : SpellsMembers members (renderMembers members) := by
  induction members with
  | nil => exact absurd rfl inhabited
  | cons member members inductionHypothesis =>
      obtain ⟨leaf, leaves⟩ := List.forall_mem_cons.mp leaves
      cases members with
      | nil => exact .last (spellsMember_render leaf)
      | cons next members =>
          have others := inductionHypothesis leaves (List.cons_ne_nil _ _)
          simpa [renderMembers] using SpellsMembers.more (spellsMember_render leaf) others

/-- What is written for a flat document spells it. -/
theorem spelledBy_print {document : Json} (flat : IsFlat document) :
    SpelledBy document document.print := by
  refine ⟨render document, [], ?_, blank_nil, by simp [print]⟩
  cases flat with
  | leaf isLeaf => exact .leaf blank_nil (spellsLeaf_render isLeaf)
  | @object members leaves =>
      by_cases inhabited : members = []
      · subst inhabited
        exact .nothing blank_nil blank_nil
      · exact .object blank_nil (spellsMembers_render leaves inhabited)

end Json
end ShardedStream
