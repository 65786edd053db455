import ShardedStream.Proofs.Assignments.Opened
import ShardedStream.Proofs.Lineage.Ending

/-!
Resolution comes to its end.
The walk that decides on a shard calls itself for the children of the shard, without a record of
where it has been. Its meaning without any bound is a relation between what it is given and what it
gives back; from every root of a list with distinct ids it gives something back, and it never has
more calls open than the list has shards.
-/

namespace ShardedStream
namespace Assignments

/-- A sweep takes the shards of a list in turn through a walk that gives these results. -/
inductive Sweeps (walks : Shard → Assignments → Bool × Assignments → Prop) :
    List Shard → Assignments → List Shard × Assignments → Prop where
  | nil (made : Assignments) : Sweeps walks [] made ([], made)
  | cons {shard : Shard} {rest : List Shard} {made : Assignments} {walked : Bool × Assignments}
      {swept : List Shard × Assignments} (here : walks shard made walked)
      (others : Sweeps walks rest walked.2 swept) :
      Sweeps walks (shard :: rest) made (if walked.1 then swept.1 else shard :: swept.1, swept.2)

/-- The walk decides on a shard when its children have been swept. -/
def conclude (lineage : Lineage) (checkpoint : Checkpoint) (shard : Shard)
    (swept : List Shard × Assignments) : Bool × Assignments :=
  let children := lineage.children shard.id
  if swept.1.length < children.length then
    (true, swept.2.assignAll swept.1 .trimHorizon)
  else
    match checkpoint.get? shard.id with
    | none => (false, swept.2)
    | some sequence =>
      if shard.endsAt sequence then
        (true, swept.2.assignAll children .trimHorizon)
      else
        (true, swept.2.assign shard.id (.afterSequence sequence))

/--
The walk from a shard comes to its end with this result, and it never has more calls open than this
number. A walk that calls itself for ever has no result, whatever the number.
-/
def Covers (lineage : Lineage) (checkpoint : Checkpoint) :
    Nat → Shard → Assignments → Bool × Assignments → Prop
  | 0, _, _, _ => False
  | calls + 1, shard, made, walked =>
    ∃ swept, Sweeps (Covers lineage checkpoint calls) (lineage.children shard.id) made swept ∧
      walked = conclude lineage checkpoint shard swept

variable {shards : List Shard} {lineage : Lineage} {checkpoint : Checkpoint}

theorem cover_succ (calls : Nat) (shard : Shard) (made : Assignments) :
    cover lineage checkpoint (calls + 1) shard made =
      conclude lineage checkpoint shard
        (sweep (cover lineage checkpoint calls) (lineage.children shard.id) made) := rfl

/-- A sweep with a walk that ends everywhere gives back what the walk leads to. -/
theorem sweeps_sweep {walks : Shard → Assignments → Bool × Assignments → Prop}
    {walk : Shard → Assignments → Bool × Assignments} (swept : List Shard)
    (each : ∀ shard ∈ swept, ∀ made, walks shard made (walk shard made)) (made : Assignments) :
    Sweeps walks swept made (sweep walk swept made) := by
  induction swept generalizing made with
  | nil => exact .nil made
  | cons shard rest inductionHypothesis =>
      refine .cons (each shard List.mem_cons_self made) (inductionHypothesis ?_ _)
      exact fun other member => each other (List.mem_cons_of_mem _ member)

/-- A walk with fuel for every line of descent below its shard comes to its end. -/
theorem covers_cover {calls : Nat} {shard : Shard} (ends : lineage.EndsWithin calls shard)
    (made : Assignments) :
    Covers lineage checkpoint calls shard made (cover lineage checkpoint calls shard made) := by
  induction calls generalizing shard made with
  | zero => exact ends.elim
  | succ calls inductionHypothesis =>
      refine ⟨_, sweeps_sweep _ (fun child link => ?_) made, cover_succ calls shard made⟩
      exact inductionHypothesis (ends child link)

/-- A sweep gives back one result when its walk does. -/
theorem Sweeps.unique {walks others : Shard → Assignments → Bool × Assignments → Prop}
    (agree : ∀ shard made first second, walks shard made first → others shard made second →
      first = second) {swept : List Shard} {made : Assignments}
    {first second : List Shard × Assignments} (one : Sweeps walks swept made first)
    (other : Sweeps others swept made second) : first = second := by
  induction one generalizing second with
  | nil made =>
      cases other
      rfl
  | cons here rest inductionHypothesis =>
      cases other with
      | cons otherHere otherRest =>
          obtain rfl := agree _ _ _ _ here otherHere
          obtain rfl := inductionHypothesis otherRest
          rfl

/-- A walk gives back one result, whatever number of open calls is asked for. -/
theorem Covers.unique {calls more : Nat} {shard : Shard} {made : Assignments}
    {first second : Bool × Assignments} (one : Covers lineage checkpoint calls shard made first)
    (other : Covers lineage checkpoint more shard made second) : first = second := by
  induction calls generalizing more shard made first second with
  | zero => exact one.elim
  | succ calls inductionHypothesis =>
      cases more with
      | zero => exact other.elim
      | succ more =>
          obtain ⟨swept, sweeps, rfl⟩ := one
          obtain ⟨otherSwept, otherSweeps, rfl⟩ := other
          have agree : ∀ child made first second, Covers lineage checkpoint calls child made first →
              Covers lineage checkpoint more child made second → first = second :=
            fun _ _ _ _ => inductionHypothesis
          rw [sweeps.unique agree otherSweeps]

/--
Whatever the parents of shards with distinct ids are, resolution ends. From a root no chain of
calls is longer than the list; the walk gives back one result, the one that a start uses; and the
walk with a stack takes no more turns than there are shards. A shard whose parents run into a
circle is never opened.
-/
theorem resolution_ends (distinct : (shards.map Shard.id).Nodup) (checkpoint : Checkpoint) :
    let lineage := Lineage.ofShards shards
    (∀ root ∈ lineage.roots,
        (∀ chain, (root :: chain).IsChain lineage.IsChild →
          (root :: chain).length ≤ shards.length) ∧
        (∀ made,
          let walked := cover lineage checkpoint (depthBound lineage) root made
          Covers lineage checkpoint shards.length root made walked ∧
            ∀ calls other, Covers lineage checkpoint calls root made other → other = walked) ∧
        ∃ turns ≤ shards.length,
          lineage.WalksTips turns [root.id] [] (lineage.tipsBelow root.id)) ∧
      ∀ policy, ∀ shard ∈ shards, lineage.RunsIntoCycle shard →
        shard.id ∉ (atStart lineage checkpoint policy).shards := by
  intro lineage
  refine ⟨fun root member => ?_, fun policy shard listed circular opened => ?_⟩
  · have rooted : lineage.Rooted root := rooted_of_mem_roots member
    have ends : lineage.EndsWithin shards.length root := rooted.endsWithin distinct
    refine ⟨fun chain links => ends.length_le links, fun made => ?_, rooted.walksTips distinct⟩
    have covers : Covers lineage checkpoint shards.length root made
        (cover lineage checkpoint (depthBound lineage) root made) := covers_cover ends made
    exact ⟨covers, fun calls other walks => walks.unique covers⟩
  · obtain ⟨other, rooted, same⟩ := rooted_of_opened distinct opened
    rw [Lineage.eq_of_id_eq distinct (Lineage.listed_of_rooted rooted) listed same] at rooted
    exact circular.not_rooted distinct rooted

/--
Resolution over a list ends wherever it begins: every walk gives back what it comes to without a
bound on its calls, and the walk with a stack takes no more turns than there are shards.
-/
def Resolves (shards : List Shard) : Prop :=
  let lineage := Lineage.ofShards shards
  ∀ shard ∈ shards,
    (∀ checkpoint made, Covers lineage checkpoint shards.length shard made
      (cover lineage checkpoint (depthBound lineage) shard made)) ∧
    ∃ turns ≤ shards.length, lineage.WalksTips turns [shard.id] [] (lineage.tipsBelow shard.id)

/-- Every shard of an acyclic list is below a root, so resolution ends there. -/
theorem resolves_of_acyclic (distinct : (shards.map Shard.id).Nodup)
    (acyclic : (Lineage.ofShards shards).Acyclic) : Resolves shards := by
  intro shard listed
  have rooted := acyclic.rooted listed
  exact ⟨fun checkpoint made => covers_cover (rooted.endsWithin distinct) made,
    rooted.walksTips distinct⟩

/-- An orphan with one child, a shard that names itself, and a circle of two with one child. -/
def tangled : List Shard :=
  [⟨"A", some "gone", "100", some "199"⟩, ⟨"B", some "A", "200", none⟩,
    ⟨"C", some "C", "300", none⟩, ⟨"D", some "E", "400", none⟩, ⟨"E", some "D", "400", none⟩,
    ⟨"F", some "D", "500", none⟩]

/-- From the orphan everything ends, and the shard behind the circle is not opened for all that it
has an entry. -/
theorem tangled_ends :
    let lineage := Lineage.ofShards tangled
    let checkpoint := Checkpoint.empty.record "F" "510"
    (tangled.map Shard.id).Nodup ∧ lineage.roots = [tangled[0]] ∧
      ([tangled[0], tangled[1]].IsChain lineage.IsChild ∧ [tangled[0], tangled[1]].length ≤ 6) ∧
      (∃ made, Covers lineage checkpoint 6 tangled[0] empty (false, made)) ∧
      (∃ turns ≤ 6, lineage.WalksTips turns ["A"] [] [tangled[1]]) ∧
      lineage.RunsIntoCycle tangled[5] ∧
      "F" ∉ (atStart lineage checkpoint .newest).shards := by
  intro lineage checkpoint
  have distinct : (tangled.map Shard.id).Nodup := by decide
  have only : lineage.roots = [tangled[0]] := by decide
  have root : tangled[0] ∈ lineage.roots := by
    rw [only]
    exact List.mem_cons_self
  have link : ∀ {parent child : Shard}, child ∈ lineage.children parent.id →
      lineage.IsChild parent child := id
  have there : lineage.IsChild tangled[3] tangled[4] := link (by decide)
  have circular : lineage.RunsIntoCycle tangled[5] :=
    ⟨tangled[3], .single (link (by decide)), .tail (.single there) (link (by decide))⟩
  obtain ⟨ends, unopened⟩ := resolution_ends distinct checkpoint
  obtain ⟨short, covers, walks⟩ := ends _ root
  have links : [tangled[0], tangled[1]].IsChain lineage.IsChild :=
    .cons_cons (link (by decide)) (.singleton _)
  have bare : cover lineage checkpoint (depthBound lineage) tangled[0] empty =
      (false, (cover lineage checkpoint (depthBound lineage) tangled[0] empty).2) :=
    Prod.ext (by decide +kernel) rfl
  have tips : lineage.tipsBelow "A" = [tangled[1]] := by decide
  exact ⟨distinct, only, ⟨links, short _ links⟩, ⟨_, bare ▸ (covers empty).1⟩, tips ▸ walks,
    circular, unopened .newest tangled[5] (by decide) circular⟩

end Assignments
end ShardedStream
