import Mathlib.Data.List.Induction
import Mathlib.Data.List.Nodup
import Mathlib.Logic.Relation
import ShardedStream.Reader.Apply

/-!
The index of a reader.
Whatever a reader goes through, its index holds every tracked shard at its own place, and a shard
that is tracked stays where it is.
-/

namespace ShardedStream
namespace Reader

/-- The tracked shards by name, in order. -/
def ids (reader : Reader) : List ShardId := reader.shards.map Tracked.id

/-- The index leads to a place exactly when the shard stands there. -/
def Indexed (reader : Reader) : Prop :=
  ∀ shard place, reader.index[shard]? = some place ↔
    ∃ tracked : Tracked, reader.shards[place]? = some tracked ∧ tracked.id = shard

variable {reader : Reader}

theorem mem_ids {shard : ShardId} :
    shard ∈ reader.ids ↔ ∃ tracked ∈ reader.shards, tracked.id = shard :=
  List.mem_map

/-- A new reader tracks nothing. -/
theorem indexed_ofSettings (settings : ReaderSettings) : (ofSettings settings).Indexed :=
  fun shard place => by simp [ofSettings]

namespace Indexed

/-- No shard is tracked twice. -/
theorem distinct (indexed : reader.Indexed) : reader.ids.Nodup := by
  rw [ids, List.nodup_iff_getElem?_ne_getElem?]
  intro first second before within same
  rw [List.length_map] at within
  rw [List.getElem?_map, List.getElem?_map, List.getElem?_eq_getElem within,
    List.getElem?_eq_getElem (Nat.lt_trans before within), Option.map_some, Option.map_some,
    Option.some.injEq] at same
  have firstPlace := (indexed _ first).mpr
    ⟨_, List.getElem?_eq_getElem (Nat.lt_trans before within), rfl⟩
  have secondPlace := (indexed _ second).mpr ⟨_, List.getElem?_eq_getElem within, rfl⟩
  rw [same, secondPlace] at firstPlace
  exact Nat.ne_of_gt before (Option.some.inj firstPlace)

/-- Tracked shards of one name are one. -/
theorem eq_of_id_eq (indexed : reader.Indexed) {first second : Tracked}
    (firstMember : first ∈ reader.shards) (secondMember : second ∈ reader.shards)
    (same : first.id = second.id) : first = second :=
  List.inj_on_of_nodup_map indexed.distinct firstMember secondMember same

/-- Looking up a shard finds the one of that name. -/
theorem tracked?_eq_some_iff (indexed : reader.Indexed) {shard : ShardId} {tracked : Tracked} :
    reader.tracked? shard = some tracked ↔ tracked ∈ reader.shards ∧ tracked.id = shard := by
  rw [tracked?, Option.bind_eq_some_iff]
  constructor
  · rintro ⟨place, indexedAt, found⟩
    obtain ⟨other, here, same⟩ := (indexed shard place).mp indexedAt
    rw [found] at here
    obtain rfl := Option.some.inj here
    exact ⟨List.mem_of_getElem? found, same⟩
  · rintro ⟨member, same⟩
    obtain ⟨place, found⟩ := List.mem_iff_getElem?.mp member
    exact ⟨place, (indexed shard place).mpr ⟨tracked, found, same⟩, found⟩

theorem tracked?_eq_none (indexed : reader.Indexed) {shard : ShardId}
    (unknown : shard ∉ reader.ids) : reader.tracked? shard = none := by
  rw [Option.eq_none_iff_forall_ne_some]
  intro tracked found
  obtain ⟨member, same⟩ := indexed.tracked?_eq_some_iff.mp found
  exact unknown (mem_ids.mpr ⟨tracked, member, same⟩)

theorem contains_iff (indexed : reader.Indexed) {shard : ShardId} :
    reader.index.contains shard = true ↔ shard ∈ reader.ids := by
  rw [← Std.ExtTreeMap.isSome_getElem?_eq_contains, Option.isSome_iff_exists, mem_ids]
  constructor
  · rintro ⟨place, indexedAt⟩
    obtain ⟨tracked, found, same⟩ := (indexed shard place).mp indexedAt
    exact ⟨tracked, List.mem_of_getElem? found, same⟩
  · rintro ⟨tracked, member, same⟩
    obtain ⟨place, found⟩ := List.mem_iff_getElem?.mp member
    exact ⟨place, (indexed shard place).mpr ⟨tracked, found, same⟩⟩

theorem mem_trackedShards (indexed : reader.Indexed) {shard : ShardId} :
    reader.trackedShards.contains shard = true ↔ shard ∈ reader.ids := by
  rw [trackedShards, Std.ExtTreeSet.contains_ofList, List.contains_iff_mem,
    Std.ExtTreeMap.mem_keys, Std.ExtTreeMap.mem_iff_contains, indexed.contains_iff]

/-- A change of one shard reaches that shard alone. -/
theorem shards_modifyTracked (indexed : reader.Indexed) (shard : ShardId)
    (change : Tracked → Tracked) :
    (reader.modifyTracked shard change).shards =
      reader.shards.map fun tracked => if tracked.id = shard then change tracked else tracked := by
  apply List.ext_getElem?
  intro place
  rw [modifyTracked, List.getElem?_map]
  cases indexedAt : reader.index[shard]? with
  | none =>
      cases found : reader.shards[place]? with
      | none => rfl
      | some tracked =>
          have other : tracked.id ≠ shard := by
            intro same
            have here := (indexed shard place).mpr ⟨tracked, found, same⟩
            rw [indexedAt] at here
            cases here
          rw [Option.map_some, if_neg other]
  | some own =>
      obtain ⟨owner, ownFound, ownSame⟩ := (indexed shard own).mp indexedAt
      simp only [List.getElem?_modify, Option.map_eq_map]
      cases found : reader.shards[place]? with
      | none => rfl
      | some tracked =>
          by_cases same : tracked.id = shard
          · have here := (indexed shard place).mpr ⟨tracked, found, same⟩
            rw [indexedAt] at here
            simp only [Option.map_some, if_pos (Option.some.inj here), if_pos same]
          · have elsewhere : own ≠ place := by
              intro equal
              rw [equal, found] at ownFound
              exact same (Option.some.inj ownFound ▸ ownSame)
            simp only [Option.map_some, if_neg elsewhere, if_neg same]

/-- A change of one shard changes nothing but that shard. -/
theorem modifyTracked_eq (indexed : reader.Indexed) (shard : ShardId)
    (change : Tracked → Tracked) :
    reader.modifyTracked shard change = { reader with
      shards := reader.shards.map fun tracked =>
        if tracked.id = shard then change tracked else tracked } := by
  rw [← indexed.shards_modifyTracked]
  unfold Reader.modifyTracked
  split <;> rfl

theorem index_modifyTracked (shard : ShardId) (change : Tracked → Tracked) :
    (reader.modifyTracked shard change).index = reader.index := by
  unfold modifyTracked
  split <;> rfl

/-- A change that keeps the name keeps the index right. -/
theorem modifyTracked (indexed : reader.Indexed) (shard : ShardId) {change : Tracked → Tracked}
    (keeps : ∀ tracked, (change tracked).id = tracked.id) :
    (reader.modifyTracked shard change).Indexed := by
  intro other place
  rw [index_modifyTracked, indexed.shards_modifyTracked, indexed other place,
    List.getElem?_map]
  constructor
  · rintro ⟨tracked, found, same⟩
    refine ⟨_, by rw [found, Option.map_some], ?_⟩
    split
    · rw [keeps, same]
    · exact same
  · rintro ⟨changed, found, same⟩
    obtain ⟨tracked, here, rfl⟩ := Option.map_eq_some_iff.mp found
    refine ⟨tracked, here, ?_⟩
    rw [← same]
    split
    · exact (keeps tracked).symm
    · rfl

/-- The index stays right when a new shard is put last. -/
theorem append (indexed : reader.Indexed) {tracked : Tracked} (fresh : tracked.id ∉ reader.ids) :
    Indexed { reader with
      index := reader.index.insert tracked.id reader.shards.length
      shards := reader.shards ++ [tracked] } := by
  intro shard place
  simp only [Std.ExtTreeMap.getElem?_insert, Std.LawfulEqCmp.compare_eq_iff_eq]
  by_cases own : tracked.id = shard
  · rw [if_pos own]
    constructor
    · intro last
      rw [← Option.some.inj last, List.getElem?_concat_length]
      exact ⟨_, rfl, own⟩
    · rintro ⟨other, found, same⟩
      rw [List.getElem?_append] at found
      split at found
      · exact absurd (mem_ids.mpr ⟨other, List.mem_of_getElem? found, same.trans own.symm⟩) fresh
      · rw [List.getElem?_singleton] at found
        split at found
        · exact congrArg some (by omega)
        · cases found
  · rw [if_neg own, indexed shard place]
    constructor
    · rintro ⟨other, found, same⟩
      refine ⟨other, ?_, same⟩
      rw [List.getElem?_append_left (List.getElem?_eq_some_iff.mp found).1]
      exact found
    · rintro ⟨other, found, same⟩
      rw [List.getElem?_append] at found
      split at found
      · exact ⟨other, found, same⟩
      · obtain rfl := List.mem_singleton.mp (List.mem_of_getElem? found)
        exact absurd same own

theorem ids_modifyTracked (indexed : reader.Indexed) (shard : ShardId)
    {change : Tracked → Tracked} (keeps : ∀ tracked, (change tracked).id = tracked.id) :
    (reader.modifyTracked shard change).ids = reader.ids := by
  rw [ids, indexed.shards_modifyTracked, List.map_map]
  refine List.map_congr_left fun tracked _ => ?_
  simp only [Function.comp]
  split
  · exact keeps tracked
  · rfl

end Indexed

/-- This is what tracking some decisions comes to. -/
structure Tracks (reader : Reader) (entries added : List Assignment) (later : Reader) :
    Prop where
  indexed : later.Indexed
  shards : later.shards = reader.shards ++ added.map .ofAssignment
  chosen : ∀ entry ∈ added, entry ∈ entries ∧ entry.shard ∉ reader.ids
  every : ∀ entry ∈ entries, entry.shard ∈ later.ids
  rest : later = { reader with shards := later.shards, index := later.index }

/-- A shard that is not tracked yet is put last. -/
theorem tracks_trackOne {entries added : List Assignment} {later : Reader}
    (tracks : Tracks reader entries added later) (entry : Assignment) :
    Tracks reader (entries ++ [entry]) (trackOne (added, later) entry).1
      (trackOne (added, later) entry).2 := by
  unfold trackOne
  by_cases known : later.index.contains entry.shard
  · rw [if_pos known]
    refine ⟨tracks.indexed, tracks.shards, fun other member => ?_, fun other member => ?_,
      tracks.rest⟩
    · exact ⟨List.mem_append_left _ (tracks.chosen other member).1,
        (tracks.chosen other member).2⟩
    · rcases List.mem_append.mp member with early | last
      · exact tracks.every other early
      · rw [List.mem_singleton.mp last]
        exact tracks.indexed.contains_iff.mp known
  · rw [if_neg known]
    have fresh : entry.shard ∉ later.ids := fun member =>
      known (tracks.indexed.contains_iff.mpr member)
    refine ⟨tracks.indexed.append fresh, ?_, fun other member => ?_, fun other member => ?_, ?_⟩
    · simp only [tracks.shards, List.map_append, List.map_cons, List.map_nil, List.append_assoc]
    · rcases List.mem_append.mp member with early | last
      · exact ⟨List.mem_append_left _ (tracks.chosen other early).1,
          (tracks.chosen other early).2⟩
      · obtain rfl := List.mem_singleton.mp last
        refine ⟨List.mem_append_right _ last, fun old => fresh ?_⟩
        rw [ids, tracks.shards, List.map_append]
        exact List.mem_append_left _ old
    · simp only [ids, List.map_append, List.mem_append]
      rcases List.mem_append.mp member with early | last
      · exact .inl (tracks.every other early)
      · rw [List.mem_singleton.mp last]
        exact .inr List.mem_cons_self
    · rw [tracks.rest]

theorem tracks_foldl (indexed : reader.Indexed) (entries : List Assignment) :
    Tracks reader entries (entries.foldl trackOne ([], reader)).1
      (entries.foldl trackOne ([], reader)).2 := by
  induction entries using List.reverseRecOn with
  | nil =>
      refine ⟨indexed, (List.append_nil _).symm, ?_, ?_, rfl⟩
      · exact fun _ member => absurd member List.not_mem_nil
      · exact fun _ member => absurd member List.not_mem_nil
  | append_singleton entries entry inductionHypothesis =>
      rw [List.foldl_append]
      exact tracks_trackOne inductionHypothesis entry

/-- Tracking puts the shards that are not tracked yet last. -/
theorem Indexed.track (indexed : reader.Indexed) (assignments : Assignments) :
    Tracks reader assignments.entries (reader.track assignments).1
      (reader.track assignments).2 :=
  tracks_foldl indexed assignments.entries

end Reader
end ShardedStream
