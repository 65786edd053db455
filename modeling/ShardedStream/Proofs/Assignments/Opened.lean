import ShardedStream.Proofs.Assignments.Start

/-!
Which shards are opened.
A start and a succession open the shards at which handing over stops, each at the position that its
entry in the checkpoint says.
-/

namespace ShardedStream
namespace Assignments

variable {shards : List Shard} {checkpoint : Checkpoint}

/-- A decision is taken at a shard below, on itself or on one of its children. -/
theorem decides_cases {lineage : Lineage} {top : Shard} {entry : Assignment}
    (decides : Decides lineage checkpoint top entry) :
    (∃ shard sequence, lineage.Below top shard ∧
        ResumesAfter lineage checkpoint shard sequence ∧
        entry = ⟨shard.id, .afterSequence sequence⟩) ∨
      ∃ parent child, lineage.Below top parent ∧ lineage.IsChild parent child ∧
        ¬ Covered lineage checkpoint child ∧ HandsOver lineage checkpoint parent ∧
        entry = ⟨child.id, .trimHorizon⟩ := by
  induction decides with
  | deeper link rest inductionHypothesis =>
      rcases inductionHypothesis with
        ⟨shard, sequence, below, found⟩ | ⟨parent, child, below, found⟩
      · exact .inl ⟨shard, sequence, .head link below, found⟩
      · exact .inr ⟨parent, child, .head link below, found⟩
  | fresh link uncovered handsOver => exact .inr ⟨_, _, .refl, link, uncovered, handsOver, rfl⟩
  | resumed resumes => exact .inl ⟨_, _, .refl, resumes, rfl⟩

/-- What is decided below a shard is decided from it. -/
theorem Decides.above {lineage : Lineage} {top shard : Shard} {entry : Assignment}
    (below : lineage.Below top shard) (decides : Decides lineage checkpoint shard entry) :
    Decides lineage checkpoint top entry := by
  induction below using Relation.ReflTransGen.head_induction_on with
  | refl => exact decides
  | head link _ inductionHypothesis => exact .deeper link inductionHypothesis

/-- A walk decides on a child only where handing over stops. -/
theorem stops_of_decides (distinct : (shards.map Shard.id).Nodup) {top parent child : Shard}
    {position : Position} (topListed : top ∈ shards) (listed : parent ∈ shards)
    (link : (Lineage.ofShards shards).IsChild parent child)
    (decides : Decides (.ofShards shards) checkpoint top ⟨child.id, position⟩) :
    HandsOver (.ofShards shards) checkpoint parent ∧
      ¬ HandsOver (.ofShards shards) checkpoint child := by
  have childListed := (Lineage.isChild_iff.mp link).1
  rcases decides_cases decides with ⟨shard, sequence, below, resumes, same⟩ |
    ⟨other, shard, below, otherLink, uncovered, handsOver, same⟩
  · have equal := Lineage.eq_of_id_eq distinct childListed (Lineage.listed_of_below topListed below)
      (congrArg Assignment.shard same)
    subst equal
    exact ⟨.inl ⟨child, link, resumes.covered⟩, resumes.2⟩
  · have equal := Lineage.eq_of_id_eq distinct childListed (Lineage.isChild_iff.mp otherLink).1
      (congrArg Assignment.shard same)
    subst equal
    have sameParent := Lineage.isChild_unique distinct
      (Lineage.listed_of_below topListed below) listed otherLink link
    subst sameParent
    exact ⟨handsOver, fun childOver => uncovered childOver.covered⟩

/-- Where handing over stops, the walk decides on the child. -/
theorem decides_of_stops {lineage : Lineage} {top parent child : Shard}
    (below : lineage.Below top parent) (link : lineage.IsChild parent child)
    (handsOver : HandsOver lineage checkpoint parent)
    (stays : ¬ HandsOver lineage checkpoint child) :
    ∃ position, Decides lineage checkpoint top ⟨child.id, position⟩ := by
  by_cases covered : Covered lineage checkpoint child
  · obtain ⟨sequence, resumes⟩ := covered.handsOver_or_resumes.resolve_left stays
    exact ⟨_, .above (below.tail link) (.resumed resumes)⟩
  · exact ⟨_, .above below (.fresh link covered handsOver)⟩

theorem mem_shards_atStart (distinct : (shards.map Shard.id).Nodup) {policy : StartPolicy}
    {id : ShardId} :
    id ∈ (atStart (.ofShards shards) checkpoint policy).shards ↔
      ∃ position, Starts (.ofShards shards) checkpoint policy ⟨id, position⟩ := by
  simp only [mem_shards, mem_atStart distinct]

/-- A start opens a root exactly when it does not hand over. -/
theorem opened_root_iff (distinct : (shards.map Shard.id).Nodup) {policy : StartPolicy}
    (opens : RootOpens (.ofShards shards) checkpoint policy) {root : Shard}
    (member : root ∈ (Lineage.ofShards shards).roots) :
    root.id ∈ (atStart (.ofShards shards) checkpoint policy).shards ↔
      ¬ HandsOver (.ofShards shards) checkpoint root := by
  have listed := (Lineage.mem_roots.mp member).1
  rw [mem_shards_atStart distinct]
  constructor
  · rintro ⟨position, ⟨top, topMember, decides⟩ | ⟨_, other, otherMember, uncovered, same⟩ |
      ⟨closed, _⟩⟩
    · have topListed := (Lineage.mem_roots.mp topMember).1
      rcases decides_cases decides with ⟨shard, sequence, below, resumes, same⟩ |
        ⟨parent, shard, below, link, uncovered, handsOver, same⟩
      · rw [Lineage.eq_of_id_eq distinct listed (Lineage.listed_of_below topListed below)
          (congrArg Assignment.shard same)]
        exact resumes.2
      · rw [← Lineage.eq_of_id_eq distinct listed (Lineage.isChild_iff.mp link).1
          (congrArg Assignment.shard same)] at link
        exact absurd link (Lineage.not_isChild_root member)
    · rw [Lineage.eq_of_id_eq distinct listed (Lineage.mem_roots.mp otherMember).1
        (congrArg Assignment.shard same)]
      exact fun handsOver => uncovered handsOver.covered
    · exact absurd opens closed
  · intro stays
    by_cases covered : Covered (.ofShards shards) checkpoint root
    · obtain ⟨sequence, resumes⟩ := covered.handsOver_or_resumes.resolve_left stays
      exact ⟨_, .inl ⟨root, member, .resumed resumes⟩⟩
    · exact ⟨_, .inr (.inl ⟨opens, root, member, covered, rfl⟩)⟩

/-- With nothing saved a start from the oldest records opens the roots. -/
theorem opened_unsaved_iff (distinct : (shards.map Shard.id).Nodup) {id : ShardId} :
    id ∈ (atStart (.ofShards shards) .empty .oldest).shards ↔
      ∃ root ∈ (Lineage.ofShards shards).roots, root.id = id := by
  rw [mem_shards_atStart distinct]
  constructor
  · rintro ⟨position, ⟨root, _, decides⟩ | ⟨_, root, member, _, same⟩ | ⟨closed, _⟩⟩
    · exact absurd decides.covered (not_covered_empty _ _)
    · exact ⟨root, member, (congrArg Assignment.shard same).symm⟩
    · exact absurd (.inr rfl) closed
  · rintro ⟨root, member, rfl⟩
    exact ⟨_, .inr (.inl ⟨.inr rfl, root, member, not_covered_empty _ _, rfl⟩)⟩

/-- A start opens a child exactly where handing over stops. -/
theorem opened_child_iff (distinct : (shards.map Shard.id).Nodup) {policy : StartPolicy}
    (opens : RootOpens (.ofShards shards) checkpoint policy) {parent child : Shard}
    (rooted : (Lineage.ofShards shards).Rooted parent)
    (link : (Lineage.ofShards shards).IsChild parent child) :
    child.id ∈ (atStart (.ofShards shards) checkpoint policy).shards ↔
      HandsOver (.ofShards shards) checkpoint parent ∧
        ¬ HandsOver (.ofShards shards) checkpoint child := by
  have childListed := (Lineage.isChild_iff.mp link).1
  rw [mem_shards_atStart distinct]
  constructor
  · rintro ⟨position, ⟨top, topMember, decides⟩ | ⟨_, other, otherMember, _, same⟩ | ⟨closed, _⟩⟩
    · exact stops_of_decides distinct (Lineage.mem_roots.mp topMember).1
        (Lineage.listed_of_rooted rooted) link decides
    · rw [← Lineage.eq_of_id_eq distinct childListed (Lineage.mem_roots.mp otherMember).1
        (congrArg Assignment.shard same)] at otherMember
      exact absurd link (Lineage.not_isChild_root otherMember)
    · exact absurd opens closed
  · rintro ⟨handsOver, stays⟩
    obtain ⟨root, member, below⟩ := rooted
    obtain ⟨position, decides⟩ := decides_of_stops below link handsOver stays
    exact ⟨position, .inl ⟨root, member, decides⟩⟩

/-- What a start opens it opens after the entry of the shard, or at the beginning. -/
theorem position?_of_opened (distinct : (shards.map Shard.id).Nodup) {policy : StartPolicy}
    (opens : RootOpens (.ofShards shards) checkpoint policy) {id : ShardId}
    (opened : id ∈ (atStart (.ofShards shards) checkpoint policy).shards) :
    (atStart (.ofShards shards) checkpoint policy).position? id =
      some (resumeOf checkpoint id) := by
  have sound := (atStart_adds distinct checkpoint policy).sound
  obtain ⟨position, starts⟩ := (mem_shards_atStart distinct).mp opened
  have agrees : position = resumeOf checkpoint id := starts.agrees opens
  rw [sound.position?_eq_some_iff, mem_atStart distinct, ← agrees]
  exact starts

/-- A start opens one of the shards down to a rooted shard that does not hand over. -/
theorem exists_opened_above (distinct : (shards.map Shard.id).Nodup) {policy : StartPolicy}
    (opens : RootOpens (.ofShards shards) checkpoint policy) {root shard : Shard}
    (member : root ∈ (Lineage.ofShards shards).roots)
    (below : (Lineage.ofShards shards).Below root shard)
    (stays : ¬ HandsOver (.ofShards shards) checkpoint shard) :
    ∃ cut, (Lineage.ofShards shards).Below root cut ∧
      (Lineage.ofShards shards).Below cut shard ∧
      cut.id ∈ (atStart (.ofShards shards) checkpoint policy).shards := by
  induction below with
  | refl => exact ⟨root, .refl, .refl, (opened_root_iff distinct opens member).mpr stays⟩
  | @tail parent child above link inductionHypothesis =>
      by_cases handsOver : HandsOver (.ofShards shards) checkpoint parent
      · exact ⟨child, above.tail link, .refl,
          (opened_child_iff distinct opens ⟨root, member, above⟩ link).mpr ⟨handsOver, stays⟩⟩
      · obtain ⟨cut, upper, lower, opened⟩ := inductionHypothesis handsOver
        exact ⟨cut, upper, lower.tail link, opened⟩

/-- Where the policy opens the tips, it opens all of them and nothing else. -/
theorem opened_tip_iff (distinct : (shards.map Shard.id).Nodup) {policy : StartPolicy}
    (closed : ¬ RootOpens (.ofShards shards) checkpoint policy) {shard : Shard}
    (rooted : (Lineage.ofShards shards).Rooted shard) :
    shard.id ∈ (atStart (.ofShards shards) checkpoint policy).shards ↔
      (Lineage.ofShards shards).children shard.id = [] := by
  have listed := Lineage.listed_of_rooted rooted
  rw [mem_shards_atStart distinct]
  constructor
  · rintro ⟨position, ⟨top, topMember, decides⟩ | ⟨opens, _⟩ | ⟨_, root, member, tip, here, same⟩⟩
    · exact absurd (.inl ⟨top, topMember, decides.covered⟩) closed
    · exact absurd opens closed
    · obtain ⟨below, childless⟩ :=
        (Lineage.mem_tipsBelow distinct (rooted_of_mem_roots member)).mp here
      rwa [Lineage.eq_of_id_eq distinct listed
        (Lineage.listed_of_below (Lineage.mem_roots.mp member).1 below)
        (congrArg Assignment.shard same)]
  · intro childless
    obtain ⟨root, member, below⟩ := rooted
    exact ⟨_, .inr (.inr ⟨closed, root, member, shard,
      (Lineage.mem_tipsBelow distinct (rooted_of_mem_roots member)).mpr ⟨below, childless⟩, rfl⟩)⟩

/-- A walk decides only on shards below it. -/
theorem Decides.exists_below {lineage : Lineage} {top : Shard} {entry : Assignment}
    (decides : Decides lineage checkpoint top entry) :
    ∃ shard, lineage.Below top shard ∧ entry.shard = shard.id := by
  rcases decides_cases decides with ⟨shard, _, below, _, rfl⟩ | ⟨_, child, below, link, _, _, rfl⟩
  · exact ⟨shard, below, rfl⟩
  · exact ⟨child, below.tail link, rfl⟩

/-- Only rooted shards are opened at the start. -/
theorem rooted_of_opened (distinct : (shards.map Shard.id).Nodup) {policy : StartPolicy}
    {id : ShardId} (opened : id ∈ (atStart (.ofShards shards) checkpoint policy).shards) :
    ∃ shard, (Lineage.ofShards shards).Rooted shard ∧ shard.id = id := by
  rw [mem_shards_atStart distinct] at opened
  obtain ⟨position, ⟨root, member, decides⟩ | ⟨_, root, member, _, same⟩ |
    ⟨_, root, member, tip, here, same⟩⟩ := opened
  · obtain ⟨shard, below, same⟩ := decides.exists_below
    exact ⟨shard, ⟨root, member, below⟩, same.symm⟩
  · exact ⟨root, rooted_of_mem_roots member, (congrArg Assignment.shard same).symm⟩
  · have below := ((Lineage.mem_tipsBelow distinct (rooted_of_mem_roots member)).mp here).1
    exact ⟨tip, ⟨root, member, below⟩, (congrArg Assignment.shard same).symm⟩

theorem mem_shards_afterEnd (distinct : (shards.map Shard.id).Nodup) {finished : Shard}
    (rooted : (Lineage.ofShards shards).Rooted finished) {id : ShardId} :
    id ∈ (afterEnd (.ofShards shards) finished.id checkpoint).shards ↔
      ∃ position, Succeeds (.ofShards shards) checkpoint finished.id ⟨id, position⟩ := by
  have ends : ∀ child ∈ (Lineage.ofShards shards).children finished.id,
      (Lineage.ofShards shards).EndsWithin shards.length child :=
    fun child link => (rooted_child rooted link).endsWithin distinct
  simp only [mem_shards, mem_afterEnd checkpoint ends]

/-- A succession opens a child of the finished shard exactly when it does not hand over. -/
theorem succeeded_child_iff (distinct : (shards.map Shard.id).Nodup) {finished child : Shard}
    (rooted : (Lineage.ofShards shards).Rooted finished)
    (link : (Lineage.ofShards shards).IsChild finished child) :
    child.id ∈ (afterEnd (.ofShards shards) finished.id checkpoint).shards ↔
      ¬ HandsOver (.ofShards shards) checkpoint child := by
  have childListed := (Lineage.isChild_iff.mp link).1
  rw [mem_shards_afterEnd distinct rooted]
  constructor
  · rintro ⟨position, top, topLink, decides | ⟨uncovered, same⟩⟩
    · exact (stops_of_decides distinct (Lineage.isChild_iff.mp topLink).1
        (Lineage.listed_of_rooted rooted) link decides).2
    · rw [Lineage.eq_of_id_eq distinct childListed (Lineage.isChild_iff.mp topLink).1
        (congrArg Assignment.shard same)]
      exact fun handsOver => uncovered handsOver.covered
  · intro stays
    by_cases covered : Covered (.ofShards shards) checkpoint child
    · obtain ⟨sequence, resumes⟩ := covered.handsOver_or_resumes.resolve_left stays
      exact ⟨_, child, link, .inl (.resumed resumes)⟩
    · exact ⟨_, child, link, .inr ⟨covered, rfl⟩⟩

/-- Further down a succession opens a child exactly where handing over stops. -/
theorem succeeded_below_iff (distinct : (shards.map Shard.id).Nodup)
    {finished parent child : Shard} (rooted : (Lineage.ofShards shards).Rooted finished)
    (below : (Lineage.ofShards shards).StrictlyBelow finished parent)
    (link : (Lineage.ofShards shards).IsChild parent child) :
    child.id ∈ (afterEnd (.ofShards shards) finished.id checkpoint).shards ↔
      HandsOver (.ofShards shards) checkpoint parent ∧
        ¬ HandsOver (.ofShards shards) checkpoint child := by
  have childListed := (Lineage.isChild_iff.mp link).1
  obtain ⟨first, firstLink, further⟩ := Relation.TransGen.head'_iff.mp below
  have listed := Lineage.listed_of_below (Lineage.isChild_iff.mp firstLink).1 further
  rw [mem_shards_afterEnd distinct rooted]
  constructor
  · rintro ⟨position, top, topLink, decides | ⟨_, same⟩⟩
    · exact stops_of_decides distinct (Lineage.isChild_iff.mp topLink).1 listed link decides
    · rw [← Lineage.eq_of_id_eq distinct childListed (Lineage.isChild_iff.mp topLink).1
        (congrArg Assignment.shard same)] at topLink
      have around := Lineage.isChild_unique distinct (Lineage.listed_of_rooted rooted) listed
        topLink link
      obtain ⟨way, up⟩ := rooted.ascent
      exact absurd (around ▸ further) (up.not_below_child distinct firstLink)
  · rintro ⟨handsOver, stays⟩
    obtain ⟨position, decides⟩ := decides_of_stops further link handsOver stays
    exact ⟨position, first, firstLink, .inl decides⟩

/-- A succession opens only shards below the finished one. -/
theorem below_of_succeeded (distinct : (shards.map Shard.id).Nodup) {finished : Shard}
    (rooted : (Lineage.ofShards shards).Rooted finished) {id : ShardId}
    (opened : id ∈ (afterEnd (.ofShards shards) finished.id checkpoint).shards) :
    ∃ shard, (Lineage.ofShards shards).StrictlyBelow finished shard ∧ shard.id = id := by
  obtain ⟨position, child, link, decides | ⟨_, same⟩⟩ :=
    (mem_shards_afterEnd distinct rooted).mp opened
  · obtain ⟨shard, below, same⟩ := decides.exists_below
    exact ⟨shard, Relation.TransGen.head' link below, same.symm⟩
  · exact ⟨child, .single link, (congrArg Assignment.shard same).symm⟩

/-- A start opens no shard below another that it opens. -/
theorem not_both_opened (distinct : (shards.map Shard.id).Nodup) {policy : StartPolicy}
    {ancestor descendant : Shard} (listed : ancestor ∈ shards)
    (below : (Lineage.ofShards shards).StrictlyBelow ancestor descendant)
    (first : ancestor.id ∈ (atStart (.ofShards shards) checkpoint policy).shards) :
    descendant.id ∉ (atStart (.ofShards shards) checkpoint policy).shards := by
  obtain ⟨shard, rooted, same⟩ := rooted_of_opened distinct first
  rw [Lineage.eq_of_id_eq distinct (Lineage.listed_of_rooted rooted) listed same] at rooted
  obtain ⟨parent, above, link⟩ := Relation.TransGen.tail'_iff.mp below
  obtain ⟨root, member, top⟩ := rooted
  by_cases opens : RootOpens (.ofShards shards) checkpoint policy
  · have stays : ¬ HandsOver (.ofShards shards) checkpoint ancestor := by
      rcases Relation.ReflTransGen.cases_tail top with rfl | ⟨before, upper, lower⟩
      · exact (opened_root_iff distinct opens member).mp first
      · exact ((opened_child_iff distinct opens ⟨root, member, upper⟩ lower).mp first).2
    rw [opened_child_iff distinct opens ⟨root, member, top.trans above⟩ link]
    exact fun both => stays_below stays above both.1
  · have childless := (opened_tip_iff distinct opens ⟨root, member, top⟩).mp first
    obtain ⟨child, inner, _⟩ := Relation.TransGen.head'_iff.mp below
    rw [Lineage.IsChild, childless] at inner
    exact absurd inner List.not_mem_nil

/-- A succession opens no shard below another that it opens. -/
theorem not_both_succeeded (distinct : (shards.map Shard.id).Nodup)
    {finished ancestor descendant : Shard} (rooted : (Lineage.ofShards shards).Rooted finished)
    (listed : ancestor ∈ shards)
    (below : (Lineage.ofShards shards).StrictlyBelow ancestor descendant)
    (first : ancestor.id ∈ (afterEnd (.ofShards shards) finished.id checkpoint).shards) :
    descendant.id ∉ (afterEnd (.ofShards shards) finished.id checkpoint).shards := by
  obtain ⟨shard, under, same⟩ := below_of_succeeded distinct rooted first
  have shardListed :=
    Lineage.listed_of_below (Lineage.listed_of_rooted rooted) under.to_reflTransGen
  rw [Lineage.eq_of_id_eq distinct shardListed listed same] at under
  obtain ⟨parent, above, link⟩ := Relation.TransGen.tail'_iff.mp below
  have stays : ¬ HandsOver (.ofShards shards) checkpoint ancestor := by
    obtain ⟨before, upper, lower⟩ := Relation.TransGen.tail'_iff.mp under
    rcases Relation.reflTransGen_iff_eq_or_transGen.mp upper with rfl | upper
    · exact (succeeded_child_iff distinct rooted lower).mp first
    · exact ((succeeded_below_iff distinct rooted upper lower).mp first).2
  rw [succeeded_below_iff distinct rooted (under.trans_left above) link]
  exact fun both => stays_below stays above both.1

end Assignments
end ShardedStream
