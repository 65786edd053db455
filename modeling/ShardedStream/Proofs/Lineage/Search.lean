import ShardedStream.Proofs.Lineage.Index

/-!
The index of a shard list against plain searches of the list.
Ids may repeat, parents may be missing, and shards may name themselves or one another in a circle:
every lookup still answers what a search from one end of the list to the other answers, and every
place of the list is filed once.
-/

namespace ShardedStream
namespace Lineage

/-- A search for an id ends at the last shard that carries it. -/
def lastNamed (shards : List Shard) (id : ShardId) : Option (Shard × Nat) :=
  ((numbered shards).filter fun entry => entry.1.id = id).getLast?

/-- A search for the children of a shard finds nothing when no shard has its id. -/
def namingParent (shards : List Shard) (id : ShardId) : List Shard :=
  if id ∈ shards.map Shard.id then shards.filter fun shard => shard.parent = some id else []

/-- A search for the roots passes over the shards whose parent has a shard. -/
def withoutParent (shards : List Shard) : List Shard :=
  shards.filter fun shard => shard.parent.all fun parent => parent ∉ shards.map Shard.id

variable {shards : List Shard}

/-- The places at which chosen shards stand. -/
def placesOf (shards : List Shard) (chosen : Shard → Bool) : List Nat :=
  ((numbered shards).filter fun entry => chosen entry.1).map Prod.snd

theorem mem_placesOf {chosen : Shard → Bool} {place : Nat} :
    place ∈ placesOf shards chosen ↔
      ∃ shard, shards[place]? = some shard ∧ chosen shard = true := by
  rw [placesOf, List.mem_map]
  constructor
  · rintro ⟨entry, member, rfl⟩
    obtain ⟨listed, picked⟩ := List.mem_filter.mp member
    exact ⟨entry.1, List.mem_zipIdx_iff_getElem?.mp listed, picked⟩
  · rintro ⟨shard, listed, picked⟩
    exact ⟨(shard, place), List.mem_filter.mpr ⟨List.mem_zipIdx_iff_getElem?.mpr listed, picked⟩,
      rfl⟩

/-- No place is chosen twice. -/
theorem nodup_placesOf (chosen : Shard → Bool) : (placesOf shards chosen).Nodup := by
  have every : ((numbered shards).map Prod.snd).Nodup := by
    rw [numbered, List.zipIdx_map_snd]
    exact List.nodup_range'
  exact every.sublist (List.filter_sublist.map Prod.snd)

theorem rootPlaces_ofShards (shards : List Shard) :
    (ofShards shards).rootPlaces = placesOf shards (beginsLine (indexPlaces shards)) := by
  change ((numbered shards).foldl (file (indexPlaces shards)) (∅, [])).2 = _
  rw [foldl_file_roots, List.nil_append, placesOf]

theorem getD_childPlaces_ofShards (shards : List Shard) (id : ShardId) :
    (ofShards shards).childPlaces.getD id [] =
      placesOf shards (comesFrom (indexPlaces shards) id) := by
  change ((numbered shards).foldl (file (indexPlaces shards)) (∅, [])).1.getD id [] = _
  rw [foldl_file_children, Std.ExtTreeMap.getD_empty, List.nil_append, placesOf]

/-- Every list of children holds the places of the shards that come from one parent. -/
theorem snd_of_mem_childPlaces {entry : ShardId × List Nat}
    (filed : entry ∈ (ofShards shards).childPlaces.toList) :
    entry.2 = placesOf shards (comesFrom (indexPlaces shards) entry.1) := by
  have found := Std.ExtTreeMap.mem_toList_iff_getElem?_eq_some.mp filed
  rw [← getD_childPlaces_ofShards, Std.ExtTreeMap.getD_eq_getD_getElem?, found, Option.getD_some]

/-- A place in a list of children holds a shard that comes from the parent. -/
theorem comesFrom_of_filed {entry : ShardId × List Nat} {place : Nat}
    (filed : entry ∈ (ofShards shards).childPlaces.toList) (inside : place ∈ entry.2) :
    ∃ shard, shards[place]? = some shard ∧
      comesFrom (indexPlaces shards) entry.1 shard = true := by
  rw [snd_of_mem_childPlaces filed] at inside
  exact mem_placesOf.mp inside

/-- A shard that comes from a parent is filed under it. -/
theorem mem_childPlaces {place : Nat} {id : ShardId}
    (comes : place ∈ placesOf shards (comesFrom (indexPlaces shards) id)) :
    ∃ entry ∈ (ofShards shards).childPlaces.toList, place ∈ entry.2 := by
  rw [← getD_childPlaces_ofShards, Std.ExtTreeMap.getD_eq_getD_getElem?] at comes
  cases found : (ofShards shards).childPlaces[id]? with
  | none =>
      rw [found] at comes
      exact absurd comes List.not_mem_nil
  | some places =>
      rw [found] at comes
      exact ⟨(id, places), Std.ExtTreeMap.mem_toList_iff_getElem?_eq_some.mpr found, comes⟩

/-- A shard begins a line of descent unless it comes from its parent. -/
theorem beginsLine_eq_false_iff {places : Std.ExtTreeMap ShardId Nat} {shard : Shard} :
    beginsLine places shard = false ↔ ∃ id, comesFrom places id shard = true := by
  unfold beginsLine comesFrom
  cases shard.parent with
  | none => simp
  | some parent => simp

/-- A shard comes from one parent at most. -/
theorem comesFrom_unique {places : Std.ExtTreeMap ShardId Nat} {first second : ShardId}
    {shard : Shard} (one : comesFrom places first shard = true)
    (other : comesFrom places second shard = true) : first = second := by
  rw [comesFrom, Bool.and_eq_true, beq_iff_eq] at one other
  exact Option.some.inj (one.1.symm.trans other.1)

/-- The lists of children have no place in common. -/
theorem nodup_childPlaces (shards : List Shard) :
    ((ofShards shards).childPlaces.toList.flatMap Prod.snd).Nodup := by
  refine List.nodup_flatMap.mpr ⟨fun entry filed => ?_, ?_⟩
  · rw [snd_of_mem_childPlaces filed]
    exact nodup_placesOf _
  · refine List.Pairwise.imp_of_mem ?_ Std.ExtTreeMap.distinct_keys_toList
    intro first second firstFiled secondFiled apart place inFirst inSecond
    obtain ⟨shard, listed, comes⟩ := comesFrom_of_filed firstFiled inFirst
    obtain ⟨other, otherListed, otherComes⟩ := comesFrom_of_filed secondFiled inSecond
    rw [listed, Option.some.injEq] at otherListed
    subst otherListed
    exact apart (Std.LawfulEqCmp.compare_eq_iff_eq.mpr (comesFrom_unique comes otherComes))

/-- Every place is filed once, among the roots or in one list of children. -/
theorem filed_perm_range (shards : List Shard) :
    ((ofShards shards).rootPlaces ++
      (ofShards shards).childPlaces.toList.flatMap Prod.snd).Perm (List.range shards.length) := by
  have apart : (ofShards shards).rootPlaces.Disjoint
      ((ofShards shards).childPlaces.toList.flatMap Prod.snd) := by
    intro place root child
    rw [rootPlaces_ofShards, mem_placesOf] at root
    obtain ⟨shard, listed, begins⟩ := root
    obtain ⟨entry, filed, inside⟩ := List.mem_flatMap.mp child
    obtain ⟨other, otherListed, comes⟩ := comesFrom_of_filed filed inside
    rw [listed, Option.some.injEq] at otherListed
    subst otherListed
    rw [beginsLine_eq_false_iff.mpr ⟨_, comes⟩] at begins
    cases begins
  have distinct := List.nodup_append'.mpr
    ⟨(rootPlaces_ofShards shards ▸ nodup_placesOf _ : (ofShards shards).rootPlaces.Nodup),
      nodup_childPlaces shards, apart⟩
  refine (List.perm_ext_iff_of_nodup distinct List.nodup_range).mpr fun place => ?_
  rw [List.mem_append, List.mem_range, rootPlaces_ofShards]
  constructor
  · rintro (root | child)
    · obtain ⟨shard, listed, -⟩ := mem_placesOf.mp root
      exact (List.getElem?_eq_some_iff.mp listed).1
    · obtain ⟨entry, filed, inside⟩ := List.mem_flatMap.mp child
      obtain ⟨shard, listed, -⟩ := comesFrom_of_filed filed inside
      exact (List.getElem?_eq_some_iff.mp listed).1
  · intro within
    have listed := List.getElem?_eq_getElem within
    cases begins : beginsLine (indexPlaces shards) shards[place] with
    | true => exact .inl (mem_placesOf.mpr ⟨_, listed, begins⟩)
    | false =>
        obtain ⟨id, comes⟩ := beginsLine_eq_false_iff.mp begins
        obtain ⟨entry, filed, inside⟩ := mem_childPlaces (mem_placesOf.mpr ⟨_, listed, comes⟩)
        exact .inr (List.mem_flatMap.mpr ⟨entry, filed, inside⟩)

/-- The index knows an id when a shard of the list carries it. -/
theorem contains_indexPlaces_eq (shards : List Shard) (id : ShardId) :
    (indexPlaces shards).contains id = decide (id ∈ shards.map Shard.id) := by
  rw [Bool.eq_iff_iff, contains_indexPlaces, decide_eq_true_eq, List.mem_map]

/-- The children of a shard are found by searching for them. -/
theorem children_eq_namingParent (shards : List Shard) (id : ShardId) :
    (ofShards shards).children id = namingParent shards id := by
  rw [children_ofShards, namingParent]
  split
  · rename_i known
    refine List.filter_congr fun shard _ => ?_
    simp only [comesFrom, contains_indexPlaces_eq, known, decide_true, Bool.and_true,
      Bool.beq_eq_decide_eq]
  · rename_i unknown
    refine List.filter_eq_nil_iff.mpr fun shard _ => ?_
    simp only [comesFrom, contains_indexPlaces_eq, unknown, decide_false, Bool.and_false,
      Bool.false_eq_true, not_false_eq_true]

/-- The roots are found by searching for them. -/
theorem roots_eq_withoutParent (shards : List Shard) :
    (ofShards shards).roots = withoutParent shards := by
  rw [roots_ofShards, withoutParent]
  refine List.filter_congr fun shard _ => ?_
  simp only [beginsLine, contains_indexPlaces_eq, decide_not]

/-- The index of an id is the place at which a search for it ends. -/
theorem place?_eq_lastNamed (shards : List Shard) (id : ShardId) :
    (ofShards shards).place? id = (lastNamed shards id).map Prod.snd :=
  getElem?_indexPlaces shards id

theorem get?_eq_lastNamed (shards : List Shard) (id : ShardId) :
    (ofShards shards).get? id = (lastNamed shards id).map Prod.fst := by
  rw [get?_ofShards, ← filter_numbered, List.getLast?_map, lastNamed]

/--
The index of a list is complete, whatever the list. It answers as a search of the list does: with
the shards that name a parent, in order, with the shards whose parent is missing, and with the last
shard of an id and its place. And it loses no shard: every place of the list is filed exactly once.
-/
theorem index_complete (shards : List Shard) :
    let lineage := ofShards shards
    (∀ id, lineage.children id = namingParent shards id) ∧
      lineage.roots = withoutParent shards ∧
      (lineage.rootPlaces ++ lineage.childPlaces.toList.flatMap Prod.snd).Perm
        (List.range shards.length) ∧
      (∀ id, lineage.isParent id = true ↔ lineage.children id ≠ []) ∧
      (∀ id, lineage.get? id = (lastNamed shards id).map Prod.fst) ∧
      ∀ id, lineage.place? id = (lastNamed shards id).map Prod.snd :=
  ⟨children_eq_namingParent shards, roots_eq_withoutParent shards, filed_perm_range shards,
    isParent_ofShards shards, get?_eq_lastNamed shards, place?_eq_lastNamed shards⟩

/-- A repeated id has children once, its last shard answers for it, and a shard that names itself is
its own child and no root. -/
example :
    let shards : List Shard := [⟨"A", none, "1", none⟩, ⟨"A", some "gone", "2", none⟩,
      ⟨"B", some "A", "3", none⟩, ⟨"C", some "C", "4", none⟩]
    (ofShards shards).roots = [shards[0], shards[1]] ∧
      (ofShards shards).children "A" = [shards[2]] ∧
      (ofShards shards).children "C" = [shards[3]] ∧
      (ofShards shards).place? "A" = some 1 := by
  decide

end Lineage
end ShardedStream
