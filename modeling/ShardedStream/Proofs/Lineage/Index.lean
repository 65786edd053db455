import Mathlib.Data.List.Induction
import Mathlib.Data.List.Nodup
import ShardedStream.Lineage

/-!
The index of a shard list agrees with a search of the list.
The last shard with an id answers for it, and the roots and the children of a shard are parts of the
list, in its order.
-/

namespace ShardedStream
namespace Lineage

/-- A choice of numbered shards is a choice of shards. -/
theorem filter_numbered (shards : List Shard) (chosen : Shard → Bool) :
    ((numbered shards).filter fun entry => chosen entry.1).map Prod.fst =
      shards.filter chosen := by
  have mapped := List.filter_map (f := Prod.fst) (p := chosen) (l := numbered shards)
  rw [numbered, List.zipIdx_map_fst] at mapped
  exact mapped.symm

/-- The places of numbered shards lead back to the shards. -/
theorem atPlaces_numbered (shards : List Shard) (entries : List (Shard × Nat))
    (numbers : ∀ entry ∈ entries, entry ∈ numbered shards) :
    (ofShards shards).atPlaces (entries.map Prod.snd) = entries.map Prod.fst := by
  rw [atPlaces, List.filterMap_map]
  induction entries with
  | nil => rfl
  | cons entry entries inductionHypothesis =>
      have here : shards[entry.2]? = some entry.1 :=
        List.mem_zipIdx_iff_getElem?.mp (numbers entry List.mem_cons_self)
      have found : ((fun place => (ofShards shards).shards[place]?) ∘ Prod.snd) entry =
          some entry.1 := here
      rw [List.filterMap_cons_some found, List.map_cons,
        inductionHypothesis fun other member => numbers other (List.mem_cons_of_mem _ member)]

/-- A later entry replaces an earlier one with its id. -/
theorem getElem?_foldl_insert (entries : List (Shard × Nat)) (places : Std.ExtTreeMap ShardId Nat)
    (id : ShardId) :
    (entries.foldl (fun places entry => places.insert entry.1.id entry.2) places)[id]? =
      ((entries.filter fun entry => entry.1.id = id).getLast?.map Prod.snd).or places[id]? := by
  induction entries using List.reverseRecOn with
  | nil => rfl
  | append_singleton entries entry inductionHypothesis =>
      rw [List.foldl_append, List.foldl_cons, List.foldl_nil, Std.ExtTreeMap.getElem?_insert,
        inductionHypothesis, List.filter_append]
      by_cases same : entry.1.id = id
      · simp [same]
      · simp [same]

/-- The index holds the place of the last shard with an id. -/
theorem getElem?_indexPlaces (shards : List Shard) (id : ShardId) :
    (indexPlaces shards)[id]? =
      ((numbered shards).filter fun entry => entry.1.id = id).getLast?.map Prod.snd := by
  rw [indexPlaces, getElem?_foldl_insert, Std.ExtTreeMap.getElem?_empty, Option.or_none]

/-- The last shard with an id answers for it. -/
theorem get?_ofShards (shards : List Shard) (id : ShardId) :
    (ofShards shards).get? id = (shards.filter fun shard => shard.id = id).getLast? := by
  rw [← filter_numbered shards, List.getLast?_map]
  change ((indexPlaces shards)[id]?.bind fun place => shards[place]?) = _
  rw [getElem?_indexPlaces]
  cases last : ((numbered shards).filter fun entry => entry.1.id = id).getLast? with
  | none => rfl
  | some entry =>
      have listed := (List.mem_filter.mp (List.mem_of_getLast? last)).1
      exact List.mem_zipIdx_iff_getElem?.mp listed

/-- The index knows exactly the ids of the list. -/
theorem contains_indexPlaces (shards : List Shard) (id : ShardId) :
    (indexPlaces shards).contains id = true ↔ ∃ shard ∈ shards, shard.id = id := by
  rw [Std.ExtTreeMap.contains_eq_isSome_getElem?, getElem?_indexPlaces, Option.isSome_map,
    ← Option.isSome_map (f := Prod.fst), ← List.getLast?_map,
    filter_numbered shards fun shard => shard.id = id, List.getLast?_isSome, ne_eq,
    List.filter_eq_nil_iff]
  simp

/-- The shard at the place of an id has that id. -/
theorem place?_eq_some {shards : List Shard} {id : ShardId} {place : Nat}
    (indexed : (ofShards shards).place? id = some place) :
    ∃ shard, shards[place]? = some shard ∧ shard.id = id := by
  change (indexPlaces shards)[id]? = some place at indexed
  rw [getElem?_indexPlaces] at indexed
  obtain ⟨entry, last, rfl⟩ := Option.map_eq_some_iff.mp indexed
  obtain ⟨listed, same⟩ := List.mem_filter.mp (List.mem_of_getLast? last)
  exact ⟨entry.1, List.mem_zipIdx_iff_getElem?.mp listed, of_decide_eq_true same⟩

/-- Every listed id has a place. -/
theorem exists_place? {shards : List Shard} {shard : Shard} (listed : shard ∈ shards) :
    ∃ place, (ofShards shards).place? shard.id = some place := by
  have known := (contains_indexPlaces shards shard.id).mpr ⟨shard, listed, rfl⟩
  rw [Std.ExtTreeMap.contains_eq_isSome_getElem?] at known
  exact Option.isSome_iff_exists.mp known

/-- Shards with distinct ids are known by their ids. -/
theorem eq_of_id_eq {shards : List Shard} (distinct : (shards.map Shard.id).Nodup)
    {first second : Shard} (firstListed : first ∈ shards) (secondListed : second ∈ shards)
    (same : first.id = second.id) : first = second :=
  List.inj_on_of_nodup_map distinct firstListed secondListed same

/-- With distinct ids every shard of the list answers for its own id. -/
theorem get?_eq_some_iff {shards : List Shard} (distinct : (shards.map Shard.id).Nodup)
    (id : ShardId) (shard : Shard) :
    (ofShards shards).get? id = some shard ↔ shard ∈ shards ∧ shard.id = id := by
  rw [get?_ofShards]
  constructor
  · intro last
    obtain ⟨listed, same⟩ := List.mem_filter.mp (List.mem_of_getLast? last)
    exact ⟨listed, of_decide_eq_true same⟩
  · rintro ⟨listed, rfl⟩
    have member : shard ∈ shards.filter fun other => other.id = shard.id :=
      List.mem_filter.mpr ⟨listed, decide_eq_true rfl⟩
    obtain ⟨last, found⟩ := Option.isSome_iff_exists.mp
      (List.getLast?_isSome.mpr (List.ne_nil_of_mem member))
    obtain ⟨lastListed, same⟩ := List.mem_filter.mp (List.mem_of_getLast? found)
    rw [found, eq_of_id_eq distinct lastListed listed (of_decide_eq_true same)]

/-- A shard begins a line of descent when its parent is not indexed. -/
def beginsLine (places : Std.ExtTreeMap ShardId Nat) (shard : Shard) : Bool :=
  shard.parent.all fun parent => !places.contains parent

/-- A shard is filed under an indexed parent. -/
def comesFrom (places : Std.ExtTreeMap ShardId Nat) (id : ShardId) (shard : Shard) : Bool :=
  shard.parent == some id && places.contains id

/-- Filing collects the roots in order. -/
theorem foldl_file_roots (places : Std.ExtTreeMap ShardId Nat) (entries : List (Shard × Nat))
    (filed : Std.ExtTreeMap ShardId (List Nat) × List Nat) :
    (entries.foldl (file places) filed).2 =
      filed.2 ++ (entries.filter fun entry => beginsLine places entry.1).map Prod.snd := by
  induction entries generalizing filed with
  | nil => exact (List.append_nil _).symm
  | cons entry entries inductionHypothesis =>
      rw [List.foldl_cons, inductionHypothesis, List.filter_cons]
      unfold file beginsLine
      cases entry.1.parent with
      | none => simp
      | some parent => by_cases known : places.contains parent <;> simp [known]

/-- Filing collects the children of every shard in order. -/
theorem foldl_file_children (places : Std.ExtTreeMap ShardId Nat) (entries : List (Shard × Nat))
    (filed : Std.ExtTreeMap ShardId (List Nat) × List Nat) (id : ShardId) :
    (entries.foldl (file places) filed).1.getD id [] =
      filed.1.getD id [] ++
        (entries.filter fun entry => comesFrom places id entry.1).map Prod.snd := by
  induction entries generalizing filed with
  | nil => exact (List.append_nil _).symm
  | cons entry entries inductionHypothesis =>
      rw [List.foldl_cons, inductionHypothesis, List.filter_cons]
      unfold file comesFrom
      cases entry.1.parent with
      | none => simp
      | some parent =>
          by_cases same : parent = id
          · subst same
            by_cases known : places.contains parent <;> simp [known]
          · by_cases known : places.contains parent <;>
              simp [known, same, Std.ExtTreeMap.getD_insert]

/-- Filing knows every parent. -/
theorem foldl_file_contains (places : Std.ExtTreeMap ShardId Nat) (entries : List (Shard × Nat))
    (filed : Std.ExtTreeMap ShardId (List Nat) × List Nat) (id : ShardId) :
    (entries.foldl (file places) filed).1.contains id =
      (filed.1.contains id || entries.any fun entry => comesFrom places id entry.1) := by
  induction entries generalizing filed with
  | nil => exact (Bool.or_false _).symm
  | cons entry entries inductionHypothesis =>
      rw [List.foldl_cons, inductionHypothesis, List.any_cons]
      unfold file comesFrom
      cases entry.1.parent with
      | none => simp
      | some parent =>
          by_cases same : parent = id
          · subst same
            by_cases known : places.contains parent <;> simp [known]
          · have apart : (parent == id) = false := beq_false_of_ne same
            have other : (compare parent id == Ordering.eq) = false := by simpa using same
            by_cases known : places.contains parent <;>
              simp [known, apart, other, Std.ExtTreeMap.contains_insert]

/-- The roots are the shards whose parent is not in the list. -/
theorem roots_ofShards (shards : List Shard) :
    (ofShards shards).roots = shards.filter (beginsLine (indexPlaces shards)) := by
  change (ofShards shards).atPlaces
    ((numbered shards).foldl (file (indexPlaces shards)) (∅, [])).2 = _
  rw [foldl_file_roots, List.nil_append, atPlaces_numbered, filter_numbered]
  exact fun entry member => (List.mem_filter.mp member).1

/-- The children of a listed shard are the shards that name it. -/
theorem children_ofShards (shards : List Shard) (id : ShardId) :
    (ofShards shards).children id = shards.filter (comesFrom (indexPlaces shards) id) := by
  change (ofShards shards).atPlaces
    (((numbered shards).foldl (file (indexPlaces shards)) (∅, [])).1.getD id []) = _
  rw [foldl_file_children, Std.ExtTreeMap.getD_empty, List.nil_append, atPlaces_numbered,
    filter_numbered]
  exact fun entry member => (List.mem_filter.mp member).1

/-- Exactly the shards with children are filed as parents. -/
theorem isParent_ofShards (shards : List Shard) (id : ShardId) :
    (ofShards shards).isParent id = true ↔ (ofShards shards).children id ≠ [] := by
  change ((numbered shards).foldl (file (indexPlaces shards)) (∅, [])).1.contains id = true ↔ _
  rw [foldl_file_contains, Std.ExtTreeMap.contains_empty, Bool.false_or, children_ofShards,
    ← filter_numbered, ne_eq, List.map_eq_nil_iff, List.filter_eq_nil_iff, List.any_eq_true]
  push Not
  exact Iff.rfl

/-- A root is a listed shard without a listed parent. -/
theorem mem_roots {shards : List Shard} {shard : Shard} :
    shard ∈ (ofShards shards).roots ↔
      shard ∈ shards ∧ ∀ parent ∈ shards, shard.parent ≠ some parent.id := by
  rw [roots_ofShards, List.mem_filter, beginsLine, Option.all_eq_true]
  refine and_congr_right fun _ => ⟨fun apart parent listed named => ?_, fun apart id named => ?_⟩
  · have unknown := apart parent.id named
    rw [(contains_indexPlaces shards parent.id).mpr ⟨parent, listed, rfl⟩] at unknown
    cases unknown
  · rw [Bool.not_eq_true', ← Bool.not_eq_true, contains_indexPlaces]
    rintro ⟨parent, listed, rfl⟩
    exact apart parent listed named

/-- A child is a listed shard that names a listed parent. -/
theorem mem_children {shards : List Shard} {shard : Shard} {id : ShardId} :
    shard ∈ (ofShards shards).children id ↔
      shard ∈ shards ∧ shard.parent = some id ∧ ∃ parent ∈ shards, parent.id = id := by
  rw [children_ofShards, List.mem_filter, comesFrom, Bool.and_eq_true, beq_iff_eq,
    contains_indexPlaces]

end Lineage
end ShardedStream
