import ShardedStream.Proofs.Assignments.Opened

/-!
Every line of descent is cut once.
Of the shards on a line from a root down to a childless shard exactly one is opened, unless the line
has been read to its very end.
-/

namespace ShardedStream
namespace Assignments

/-- A line is cut at one of its shards, or at none when its last shard is consumed. -/
structure CutsOnce (checkpoint : Checkpoint) (opened : Shard → Prop) (line : List Shard) :
    Prop where
  consumed : ∀ tip, line.getLast? = some tip → Consumed checkpoint tip →
    ∀ shard ∈ line, ¬ opened shard
  unconsumed : ∀ tip, line.getLast? = some tip → ¬ Consumed checkpoint tip →
    ∃! shard, shard ∈ line ∧ opened shard

/-- Below a shard the opened shards are those at which handing over stops. -/
def OpensBelow (lineage : Lineage) (checkpoint : Checkpoint) (opened : Shard → Prop)
    (top : Shard) : Prop :=
  ∀ parent child, lineage.Below top parent → lineage.IsChild parent child →
    (opened child ↔ HandsOver lineage checkpoint parent ∧ ¬ HandsOver lineage checkpoint child)

variable {lineage : Lineage} {checkpoint : Checkpoint} {opened : Shard → Prop}

theorem OpensBelow.child {top child : Shard} (opens : OpensBelow lineage checkpoint opened top)
    (link : lineage.IsChild top child) : OpensBelow lineage checkpoint opened child :=
  fun parent other below => opens parent other (.head link below)

/-- A shard that is not opened leaves the cut to the rest of its line. -/
theorem CutsOnce.skip {shard next : Shard} {line : List Shard}
    (cuts : CutsOnce checkpoint opened (next :: line)) (passed : ¬ opened shard) :
    CutsOnce checkpoint opened (shard :: next :: line) where
  consumed := fun tip last read other member => by
    rw [List.getLast?_cons_cons] at last
    rcases List.mem_cons.mp member with rfl | below
    · exact passed
    · exact cuts.consumed tip last read other below
  unconsumed := fun tip last unread => by
    rw [List.getLast?_cons_cons] at last
    obtain ⟨cut, ⟨member, opens⟩, only⟩ := cuts.unconsumed tip last unread
    refine ⟨cut, ⟨List.mem_cons_of_mem _ member, opens⟩, fun other chosen => ?_⟩
    rcases List.mem_cons.mp chosen.1 with rfl | below
    · exact absurd chosen.2 passed
    · exact only other ⟨below, chosen.2⟩

/-- A shard above unopened shards is the cut itself. -/
theorem CutsOnce.here {shard : Shard} {line : List Shard} (opens : opened shard)
    (rest : ∀ other ∈ line, ¬ opened other)
    (unread : ∀ tip, (shard :: line).getLast? = some tip → ¬ Consumed checkpoint tip) :
    CutsOnce checkpoint opened (shard :: line) where
  consumed := fun tip last read => absurd read (unread tip last)
  unconsumed := fun tip last _ => by
    refine ⟨shard, ⟨List.mem_cons_self, opens⟩, fun other chosen => ?_⟩
    rcases List.mem_cons.mp chosen.1 with same | below
    · exact same
    · exact absurd chosen.2 (rest other below)

/-- The last shard of a line is below every other. -/
theorem below_of_getLast? {top tip : Shard} {line : List Shard} (down : lineage.Line top line)
    (last : line.getLast? = some tip) : lineage.Below top tip := by
  induction down with
  | tip shard childless =>
      cases last
      exact .refl
  | through link rest inductionHypothesis =>
      obtain ⟨_, rfl⟩ := rest.head
      rw [List.getLast?_cons_cons] at last
      exact .head link (inductionHypothesis last)

/-- Nothing is opened below a shard that does not hand over. -/
theorem not_opened_below {top : Shard} {line : List Shard}
    (opens : OpensBelow lineage checkpoint opened top)
    (stays : ¬ HandsOver lineage checkpoint top) (down : lineage.Line top line) :
    ∀ shard ∈ line.tail, ¬ opened shard := by
  induction down with
  | tip shard childless => exact fun _ member => absurd member List.not_mem_nil
  | @through top child line link rest inductionHypothesis =>
      obtain ⟨line, rfl⟩ := rest.head
      intro shard member
      rcases List.mem_cons.mp member with rfl | below
      · rw [opens top _ .refl link]
        exact fun both => stays both.1
      · exact inductionHypothesis (opens.child link) (stays_child stays link) shard below

/-- A line is cut at an opened shard that does not hand over. -/
theorem cutsOnce_here {top : Shard} {line : List Shard}
    (opens : OpensBelow lineage checkpoint opened top) (own : opened top)
    (stays : ¬ HandsOver lineage checkpoint top) (down : lineage.Line top line) :
    CutsOnce checkpoint opened line := by
  have below := not_opened_below opens stays down
  have unread : ∀ tip, line.getLast? = some tip → ¬ Consumed checkpoint tip :=
    fun tip last read => stays_below stays (below_of_getLast? down last) (.inr read)
  obtain ⟨line, rfl⟩ := down.head
  exact .here own below unread

/-- A line is cut once when its first shard is opened exactly if it does not hand over. -/
theorem cutsOnce_of_line {top : Shard} {line : List Shard}
    (opens : OpensBelow lineage checkpoint opened top)
    (own : opened top ↔ ¬ HandsOver lineage checkpoint top)
    (down : lineage.Line top line) : CutsOnce checkpoint opened line := by
  induction down with
  | tip top childless =>
      by_cases handsOver : HandsOver lineage checkpoint top
      · have read : Consumed checkpoint top := by
          rcases handsOver with ⟨child, link, _⟩ | read
          · rw [Lineage.IsChild, childless] at link
            exact absurd link List.not_mem_nil
          · exact read
        refine ⟨fun _ _ _ shard member => ?_, fun tip last unread => ?_⟩
        · rw [List.mem_singleton.mp member, own]
          exact not_not.mpr handsOver
        · cases last
          exact absurd read unread
      · exact cutsOnce_here opens (own.mpr handsOver) handsOver (.tip top childless)
  | @through top child line link rest inductionHypothesis =>
      by_cases handsOver : HandsOver lineage checkpoint top
      · obtain ⟨line, rfl⟩ := rest.head
        refine .skip (inductionHypothesis (opens.child link) ?_)
          (own.not.mpr (not_not.mpr handsOver))
        rw [opens top child .refl link, and_iff_right handsOver]
      · exact cutsOnce_here opens (own.mpr handsOver) handsOver (.through link rest)

/-- A line whose only opened shard is its tip is cut there. -/
theorem cutsOnce_of_tips {top : Shard} {line : List Shard}
    (opens : ∀ shard, lineage.Below top shard → (opened shard ↔ lineage.children shard.id = []))
    (uncovered : ¬ Covered lineage checkpoint top) (down : lineage.Line top line) :
    CutsOnce checkpoint opened line := by
  induction down with
  | tip top childless =>
      refine .here ((opens top .refl).mpr childless)
        (fun _ member => absurd member List.not_mem_nil) fun tip last read => ?_
      cases last
      exact uncovered read.covered
  | @through top child line link rest inductionHypothesis =>
      obtain ⟨line, rfl⟩ := rest.head
      refine .skip (inductionHypothesis (fun shard below => opens shard (.head link below))
        fun covered => uncovered (covered.above (.single link))) fun here => ?_
      rw [Lineage.IsChild, (opens top .refl).mp here] at link
      exact List.not_mem_nil link

variable {shards : List Shard}

/--
A start cuts every line from a root once, and a succession cuts every line from a child of the
finished shard once; so neither opens a shard and one below it.
-/
theorem lines_cut_once (distinct : (shards.map Shard.id).Nodup) (checkpoint : Checkpoint)
    (policy : StartPolicy) :
    let lineage := Lineage.ofShards shards
    let start := atStart lineage checkpoint policy
    (∀ root ∈ lineage.roots, ∀ line, lineage.Line root line →
        CutsOnce checkpoint (fun shard => shard.id ∈ start.shards) line) ∧
      (∀ ancestor ∈ shards, ∀ descendant, lineage.StrictlyBelow ancestor descendant →
        ancestor.id ∈ start.shards → descendant.id ∉ start.shards) ∧
      ∀ finished, lineage.Rooted finished →
        let next := afterEnd lineage finished.id checkpoint
        (∀ child, lineage.IsChild finished child → ∀ line, lineage.Line child line →
            CutsOnce checkpoint (fun shard => shard.id ∈ next.shards) line) ∧
          ∀ ancestor ∈ shards, ∀ descendant, lineage.StrictlyBelow ancestor descendant →
            ancestor.id ∈ next.shards → descendant.id ∉ next.shards := by
  refine ⟨fun root member line down => ?_, fun ancestor listed descendant below =>
    not_both_opened distinct listed below, fun finished rooted => ⟨fun child link line down => ?_,
    fun ancestor listed descendant below => not_both_succeeded distinct rooted listed below⟩⟩
  · by_cases opens : RootOpens (.ofShards shards) checkpoint policy
    · exact cutsOnce_of_line
        (fun parent child below link => opened_child_iff distinct opens ⟨root, member, below⟩ link)
        (opened_root_iff distinct opens member) down
    · exact cutsOnce_of_tips
        (fun shard below => opened_tip_iff distinct opens ⟨root, member, below⟩)
        (fun covered => opens (.inl ⟨root, member, covered⟩)) down
  · exact cutsOnce_of_line
      (fun parent other below inner => succeeded_below_iff distinct rooted
        (Relation.TransGen.head' link below) inner)
      (succeeded_child_iff distinct rooted link) down

/-- A shard that has been split, and whose first half has been split again. -/
def splitTwice : List Shard :=
  [⟨"A", none, "100", some "199"⟩, ⟨"B", some "A", "200", some "299"⟩,
    ⟨"C", some "A", "200", none⟩, ⟨"D", some "B", "300", none⟩, ⟨"E", some "B", "300", none⟩]

/-- The two lines through the entry of a leaf, and the line beside it, are cut once. -/
theorem splitTwice_cut_once :
    let lineage := Lineage.ofShards splitTwice
    let checkpoint := Checkpoint.empty.record "D" "410"
    (splitTwice.map Shard.id).Nodup ∧ splitTwice[0] ∈ lineage.roots ∧
      lineage.Line splitTwice[0] [splitTwice[0], splitTwice[1], splitTwice[3]] ∧
      CutsOnce checkpoint
        (fun shard => shard.id ∈ (atStart lineage checkpoint .newest).shards)
        [splitTwice[0], splitTwice[1], splitTwice[3]] ∧
      CutsOnce checkpoint (fun shard => shard.id ∈ (afterEnd lineage "A" checkpoint).shards)
        [splitTwice[1], splitTwice[4]] := by
  have distinct : (splitTwice.map Shard.id).Nodup := by decide
  have root : splitTwice[0] ∈ (Lineage.ofShards splitTwice).roots := by decide
  have split : (Lineage.ofShards splitTwice).IsChild splitTwice[0] splitTwice[1] := by
    unfold Lineage.IsChild
    decide
  have first : (Lineage.ofShards splitTwice).Line splitTwice[1] [splitTwice[1], splitTwice[3]] := by
    refine .through ?_ (.tip _ (by decide))
    unfold Lineage.IsChild
    decide
  have second :
      (Lineage.ofShards splitTwice).Line splitTwice[1] [splitTwice[1], splitTwice[4]] := by
    refine .through ?_ (.tip _ (by decide))
    unfold Lineage.IsChild
    decide
  have cut := lines_cut_once distinct
    (Checkpoint.empty.record "D" "410") .newest
  exact ⟨distinct, root, .through split first, cut.1 _ root _ (.through split first),
    (cut.2.2 _ ⟨_, root, .refl⟩).1 _ split _ second⟩

end Assignments
end ShardedStream
