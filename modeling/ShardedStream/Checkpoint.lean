import ShardedStream.Shard
import Std.Data.ExtTreeMap

/-!
Checkpoints: the last sequence number handed out for each shard.
Two checkpoints are equal exactly when they save the same number for every shard.
-/

namespace ShardedStream

/-- The sequence number saved for each shard that has one. -/
structure Checkpoint where
  saved : Std.ExtTreeMap ShardId SequenceNumber

namespace Checkpoint

def empty : Checkpoint := ⟨∅⟩

instance : Inhabited Checkpoint := ⟨empty⟩
instance : EmptyCollection Checkpoint := ⟨empty⟩

def get? (checkpoint : Checkpoint) (shard : ShardId) : Option SequenceNumber :=
  checkpoint.saved[shard]?

def contains (checkpoint : Checkpoint) (shard : ShardId) : Bool :=
  checkpoint.saved.contains shard

/-- The newest number recorded for a shard replaces the one before. -/
def record (checkpoint : Checkpoint) (shard : ShardId) (sequence : SequenceNumber) :
    Checkpoint :=
  ⟨checkpoint.saved.insert shard sequence⟩

def erase (checkpoint : Checkpoint) (shard : ShardId) : Checkpoint :=
  ⟨checkpoint.saved.erase shard⟩

def size (checkpoint : Checkpoint) : Nat := checkpoint.saved.size

def isEmpty (checkpoint : Checkpoint) : Bool := checkpoint.saved.isEmpty

/-- The entries in the order of their shards. -/
def toList (checkpoint : Checkpoint) : List (ShardId × SequenceNumber) :=
  checkpoint.saved.toList

/-- Of several entries for one shard the last one counts. -/
def ofList (entries : List (ShardId × SequenceNumber)) : Checkpoint :=
  entries.foldl (fun checkpoint entry => checkpoint.record entry.1 entry.2) empty

/-- Equal checkpoints list the same entries. -/
def same (first second : Checkpoint) : Bool := first.toList == second.toList

@[simp] theorem get?_empty (shard : ShardId) : empty.get? shard = none := by
  simp [get?, empty]

/-- Recording changes the one entry and keeps the others. -/
theorem get?_record (checkpoint : Checkpoint) (recorded : ShardId) (sequence : SequenceNumber)
    (shard : ShardId) :
    (checkpoint.record recorded sequence).get? shard =
      if recorded = shard then some sequence else checkpoint.get? shard := by
  simp [get?, record, Std.ExtTreeMap.getElem?_insert]

/-- Erasing removes the one entry and keeps the others. -/
theorem get?_erase (checkpoint : Checkpoint) (erased shard : ShardId) :
    (checkpoint.erase erased).get? shard =
      if erased = shard then none else checkpoint.get? shard := by
  simp [get?, erase, Std.ExtTreeMap.getElem?_erase]

theorem contains_iff (checkpoint : Checkpoint) (shard : ShardId) :
    checkpoint.contains shard = true ↔ (checkpoint.get? shard).isSome = true := by
  simp [contains, get?]

/-- A checkpoint is determined by what it saves for each shard. -/
@[ext] theorem ext {first second : Checkpoint}
    (agree : ∀ shard, first.get? shard = second.get? shard) : first = second := by
  cases first
  cases second
  simp only [mk.injEq]
  exact Std.ExtTreeMap.ext_getElem? agree

/-- The comparison by entries is equality. -/
theorem same_iff (first second : Checkpoint) : first.same second = true ↔ first = second := by
  constructor
  · intro equal
    have lists : first.saved.toList = second.saved.toList := by
      simpa [same, toList] using equal
    cases first
    cases second
    simp only [mk.injEq]
    exact Std.ExtTreeMap.toList_inj.mp lists
  · rintro rfl
    simp [same]

instance : DecidableEq Checkpoint := fun first second =>
  decidable_of_iff (first.same second = true) (same_iff first second)

end Checkpoint

end ShardedStream
