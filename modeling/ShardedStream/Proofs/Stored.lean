import ShardedStream.Stored
import ShardedStream.Proofs.Json.Document

/-!
Stored positions and checkpoints.
A stored form is read in every spelling, and what is written is one of them, so that nothing is lost
between writing and reading.
-/

namespace ShardedStream

/-- The names of the positions that refer to no record. -/
def Position.named : List (String × Position) :=
  [("TrimHorizon", .trimHorizon), ("Latest", .latest)]

/-- The documents that stand for a position. -/
inductive Position.StandsFor : Json → Position → Prop where
  | name {name : String} {position : Position} (listed : (name, position) ∈ named) :
      StandsFor (.string name) position
  | nameOfNothing {name : String} {position : Position} (listed : (name, position) ∈ named) :
      StandsFor (.object [(name, .null)]) position
  | afterSequence (sequence : SequenceNumber) :
      StandsFor (.object [("AfterSequenceNumber", .string sequence)]) (.afterSequence sequence)
  | atSequence (sequence : SequenceNumber) :
      StandsFor (.object [("AtSequenceNumber", .string sequence)]) (.atSequence sequence)

/-- The object that has these entries for members, in this order. -/
def Checkpoint.objectOf (entries : List (ShardId × SequenceNumber)) : Json :=
  .object (entries.map fun entry => (entry.1, .string entry.2))

/-- The last entry of a shard tells what is saved for it. -/
def Checkpoint.StandsFor (document : Json) (checkpoint : Checkpoint) : Prop :=
  ∃ entries, document = objectOf entries ∧
    ∀ shard, checkpoint.get? shard = entries.reverse.lookup shard

namespace Position

variable {document : Json} {position : Position}

theorem StandsFor.isFlat (stands : StandsFor document position) : document.IsFlat := by
  cases stands with
  | name => exact .leaf (.string _)
  | nameOfNothing => exact .object fun _ listed => List.mem_singleton.mp listed ▸ .null
  | afterSequence => exact .object fun _ listed => List.mem_singleton.mp listed ▸ .string _
  | atSequence => exact .object fun _ listed => List.mem_singleton.mp listed ▸ .string _

theorem bareName?_eq_some_iff {name : String} :
    document.bareName? = some name ↔
      document = .string name ∨ document = .object [(name, .null)] := by
  constructor
  · intro found
    unfold Json.bareName? at found
    split at found
    · cases found
      exact .inl rfl
    · cases found
      exact .inr rfl
    · cases found
  · rintro (rfl | rfl) <;> rfl

theorem ofJson?_eq_some_iff : ofJson? document = some position ↔ StandsFor document position := by
  constructor
  · intro read
    have named {name : String} (listed : (name, position) ∈ named)
        (found : document.bareName? = some name) : StandsFor document position := by
      rcases bareName?_eq_some_iff.mp found with rfl | rfl
      · exact .name listed
      · exact .nameOfNothing listed
    unfold ofJson? at read
    split at read
    · cases read
      exact .afterSequence _
    · cases read
      exact .atSequence _
    · split at read
      · rename_i found
        cases read
        exact named (by decide) found
      · rename_i found
        cases read
        exact named (by decide) found
      · cases read
  · intro stands
    cases stands with
    | name listed | nameOfNothing listed =>
        simp only [named, List.mem_cons, Prod.mk.injEq, List.not_mem_nil, or_false] at listed
        rcases listed with ⟨rfl, rfl⟩ | ⟨rfl, rfl⟩ <;> rfl
    | afterSequence | atSequence => rfl

theorem standsFor_toJson (position : Position) : StandsFor position.toJson position := by
  cases position with
  | trimHorizon => exact .name (by decide)
  | latest => exact .name (by decide)
  | afterSequence sequence => exact .afterSequence sequence
  | atSequence sequence => exact .atSequence sequence

/-- The texts in which a position is stored. -/
def StoredAs (position : Position) (text : String) : Prop :=
  ∃ document, StandsFor document position ∧ document.SpelledBy text

/-- A position is read off the texts in which it is stored, and off nothing else. -/
theorem load?_eq_some_iff {text : String} :
    load? text = some position ↔ position.StoredAs text := by
  rw [load?, Json.bind_parse_eq_some_iff fun _ read => (ofJson?_eq_some_iff.mp read).isFlat]
  simp only [ofJson?_eq_some_iff]
  rfl

theorem storedAs_store (position : Position) : position.StoredAs position.store :=
  ⟨_, standsFor_toJson position, Json.spelledBy_print (standsFor_toJson position).isFlat⟩

end Position

namespace Checkpoint

variable {document : Json} {checkpoint : Checkpoint} {entries : List (ShardId × SequenceNumber)}

/-- Of several entries for one shard the last one counts. -/
theorem get?_ofList (entries : List (ShardId × SequenceNumber)) (shard : ShardId) :
    (ofList entries).get? shard = entries.reverse.lookup shard := by
  induction entries using List.reverseRecOn with
  | nil => rfl
  | append_singleton entries last inductionHypothesis =>
      rw [ofList, List.foldl_append, List.foldl_cons, List.foldl_nil, get?_record,
        List.reverse_concat, List.lookup_cons, ← inductionHypothesis]
      by_cases same : last.1 = shard
      · simp [same]
      · have other : (shard == last.1) = false := by simpa using Ne.symm same
        rw [if_neg same, other]
        rfl

/-- An entry is kept as a text under the name of its shard. -/
theorem mapM_entry?_eq_some_iff {members : List (String × Json)} :
    members.mapM entry? = some entries ↔
      members = entries.map fun entry => (entry.1, .string entry.2) := by
  induction members generalizing entries with
  | nil => simp
  | cons member members inductionHypothesis =>
      obtain ⟨name, value⟩ := member
      rw [List.mapM_cons]
      constructor
      · intro read
        simp only [Option.pure_def, Option.bind_eq_bind, Option.bind_eq_some_iff,
          Option.some.injEq] at read
        obtain ⟨entry, first, others, rest, rfl⟩ := read
        unfold entry? at first
        split at first
        · rename_i whole
          cases whole
          cases first
          rw [inductionHypothesis.mp rest]
          rfl
        · cases first
      · intro same
        cases entries with
        | nil => cases same
        | cons entry entries =>
            obtain ⟨first, rest⟩ := List.cons.inj same
            cases first
            rw [inductionHypothesis.mpr rest]
            rfl

theorem ofJson?_eq_some_iff :
    ofJson? document = some checkpoint ↔ StandsFor document checkpoint := by
  constructor
  · intro read
    unfold ofJson? at read
    split at read
    · obtain ⟨entries, readEntries, rfl⟩ := Option.map_eq_some_iff.mp read
      exact ⟨entries, by rw [mapM_entry?_eq_some_iff.mp readEntries, objectOf], get?_ofList entries⟩
    · cases read
  · rintro ⟨entries, rfl, last⟩
    have same : ofList entries = checkpoint := by
      ext shard
      rw [get?_ofList, last]
    rw [objectOf, ofJson?, mapM_entry?_eq_some_iff.mpr rfl, Option.map_some, same]

theorem StandsFor.isFlat (stands : StandsFor document checkpoint) : document.IsFlat := by
  obtain ⟨entries, rfl, _⟩ := stands
  refine .object fun member listed => ?_
  obtain ⟨entry, _, rfl⟩ := List.mem_map.mp listed
  exact .string entry.2

/-- Entries with different keys are found wherever they stand. -/
theorem lookup_eq_some_iff (distinct : (entries.map Prod.fst).Nodup) {shard : ShardId}
    {sequence : SequenceNumber} :
    entries.lookup shard = some sequence ↔ (shard, sequence) ∈ entries := by
  induction entries with
  | nil => simp
  | cons entry entries inductionHypothesis =>
      obtain ⟨fresh, distinct⟩ := List.nodup_cons.mp distinct
      rw [List.lookup_cons]
      by_cases same : shard = entry.1
      · subst same
        have absent : (entry.1, sequence) ∉ entries := fun listed =>
          fresh (List.mem_map.mpr ⟨_, listed, rfl⟩)
        simp [Prod.ext_iff, eq_comm, absent]
      · have other : (shard == entry.1) = false := by simpa using same
        rw [other, List.mem_cons]
        simp [inductionHypothesis distinct, Prod.ext_iff, same]

/-- A checkpoint has one entry for each shard that it saves, and any order of them will do. -/
theorem standsFor_of_perm (order : entries.Perm checkpoint.toList) :
    StandsFor (objectOf entries) checkpoint := by
  have apart : (checkpoint.toList.map Prod.fst).Nodup := by
    refine List.pairwise_map.mpr (Std.ExtTreeMap.distinct_keys_toList.imp ?_)
    intro first second apart same
    exact apart (by simp [same])
  have distinct : (entries.reverse.map Prod.fst).Nodup :=
    ((entries.reverse_perm.trans order).map Prod.fst).nodup_iff.mpr apart
  refine ⟨entries, rfl, fun shard => Option.ext fun sequence => ?_⟩
  rw [lookup_eq_some_iff distinct, (entries.reverse_perm.trans order).mem_iff, toList,
    Std.ExtTreeMap.mem_toList_iff_getElem?_eq_some]
  rfl

/-- The texts in which a checkpoint is stored. -/
def StoredAs (checkpoint : Checkpoint) (text : String) : Prop :=
  ∃ document, StandsFor document checkpoint ∧ document.SpelledBy text

/-- A checkpoint is read off the texts in which it is stored, and off nothing else. -/
theorem load?_eq_some_iff {text : String} :
    load? text = some checkpoint ↔ checkpoint.StoredAs text := by
  rw [load?, Json.bind_parse_eq_some_iff fun _ read => (ofJson?_eq_some_iff.mp read).isFlat]
  simp only [ofJson?_eq_some_iff]
  rfl

theorem storedAs_print (order : entries.Perm checkpoint.toList) :
    checkpoint.StoredAs (objectOf entries).print :=
  ⟨_, standsFor_of_perm order, Json.spelledBy_print (standsFor_of_perm order).isFlat⟩

theorem reload_of_not_stored {text : String}
    (unread : ∀ stored : Checkpoint, ¬ stored.StoredAs text) :
    checkpoint.reload text = (false, checkpoint) := by
  cases read : load? text with
  | none => rw [reload, read]
  | some stored => exact absurd (load?_eq_some_iff.mp read) (unread stored)

end Checkpoint

/-- Exactly the spellings of a value are read as that value, and what is written is one of them. -/
structure ReadsBack {α : Type} (load? : String → Option α) (store : α → String)
    (StoredAs : α → String → Prop) : Prop where
  accepted : ∀ value text, load? text = some value ↔ StoredAs value text
  readBack : ∀ value, load? (store value) = some value
  /-- Any text that is read may be replaced by what is written for its value. -/
  normalized : ∀ text value, load? text = some value →
    StoredAs value (store value) ∧ load? (store value) = load? text

theorem readsBack_of_stored {α : Type} {load? : String → Option α} {store : α → String}
    {StoredAs : α → String → Prop}
    (accepted : ∀ value text, load? text = some value ↔ StoredAs value text)
    (stores : ∀ value, StoredAs value (store value)) : ReadsBack load? store StoredAs where
  accepted := accepted
  readBack := fun value => (accepted value _).mpr (stores value)
  normalized := fun _ value read =>
    ⟨stores value, by rw [read, (accepted value _).mpr (stores value)]⟩

/--
Stored checkpoints and positions read back unchanged, whatever is saved in them. The entries of a
checkpoint may be written in any order, and a text that stores none leaves a checkpoint as it was.
-/
theorem stored_reads_back :
    ReadsBack Checkpoint.load? Checkpoint.store Checkpoint.StoredAs ∧
    ReadsBack Position.load? Position.store Position.StoredAs ∧
    (∀ (checkpoint : Checkpoint) entries, entries.Perm checkpoint.toList →
      Checkpoint.load? (Checkpoint.objectOf entries).print = some checkpoint) ∧
    ∀ (checkpoint : Checkpoint) text, (∀ stored : Checkpoint, ¬ stored.StoredAs text) →
      checkpoint.reload text = (false, checkpoint) := by
  refine ⟨?_, ?_, fun checkpoint entries order => ?_, fun checkpoint text unread => ?_⟩
  · exact readsBack_of_stored (fun _ _ => Checkpoint.load?_eq_some_iff)
      fun checkpoint => Checkpoint.storedAs_print (.refl checkpoint.toList)
  · exact readsBack_of_stored (fun _ _ => Position.load?_eq_some_iff) Position.storedAs_store
  · exact Checkpoint.load?_eq_some_iff.mpr (Checkpoint.storedAs_print order)
  · exact Checkpoint.reload_of_not_stored unread

/-- A sequence number that reads like JSON, and a position by name with blanks and an escape. -/
example : Position.load? (Position.atSequence "\x7b\"Latest\":null\x7d").store =
      some (.atSequence "\x7b\"Latest\":null\x7d") ∧
    Position.load? " \x7b \"L\\u0061test\" :\tnull \x7d\n" = some .latest := by
  decide +kernel

end ShardedStream
