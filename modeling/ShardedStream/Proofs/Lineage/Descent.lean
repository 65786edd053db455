import Mathlib.Data.Fintype.EquivFin
import Mathlib.Data.List.Nodup
import Mathlib.Logic.Relation
import ShardedStream.Proofs.Lineage.Index

/-!
Lines of descent.
Every shard below a root has one way up to it, and the way repeats no shard, so a walk down from a
root is never deeper than the list is long.
-/

namespace ShardedStream
namespace Lineage

/-- This is one link of a line of descent. -/
def IsChild (lineage : Lineage) (parent child : Shard) : Prop :=
  child ∈ lineage.children parent.id

/-- Every shard is below itself. -/
def Below (lineage : Lineage) : Shard → Shard → Prop := Relation.ReflTransGen lineage.IsChild

/-- A descendant is at least one link below. -/
def StrictlyBelow (lineage : Lineage) : Shard → Shard → Prop :=
  Relation.TransGen lineage.IsChild

/-- A shard is rooted when a root is above it. -/
def Rooted (lineage : Lineage) (shard : Shard) : Prop :=
  ∃ root ∈ lineage.roots, lineage.Below root shard

/-- No shard of an acyclic lineage is below itself. -/
def Acyclic (lineage : Lineage) : Prop := ∀ shard, ¬ lineage.StrictlyBelow shard shard

/-- Every line of descent from the shard has at most so many shards. -/
def EndsWithin (lineage : Lineage) : Nat → Shard → Prop
  | 0, _ => False
  | depth + 1, shard => ∀ child, lineage.IsChild shard child → lineage.EndsWithin depth child

instance EndsWithin.decidable (lineage : Lineage) :
    (depth : Nat) → (shard : Shard) → Decidable (lineage.EndsWithin depth shard)
  | 0, _ => .isFalse id
  | depth + 1, shard =>
    have := EndsWithin.decidable lineage depth
    inferInstanceAs (Decidable (∀ child ∈ lineage.children shard.id, _))

/-- This is a line of descent down to a childless shard. -/
inductive Line (lineage : Lineage) : Shard → List Shard → Prop where
  | tip (shard : Shard) (childless : lineage.children shard.id = []) : Line lineage shard [shard]
  | through {shard child : Shard} {line : List Shard} (link : lineage.IsChild shard child)
      (rest : Line lineage child line) : Line lineage shard (shard :: line)

/-- This is the way from a shard up to a root, the shard first. -/
inductive Ascent (lineage : Lineage) : Shard → List Shard → Prop where
  | root {root : Shard} (member : root ∈ lineage.roots) : Ascent lineage root [root]
  | child {parent child : Shard} {above : List Shard} (rest : Ascent lineage parent above)
      (link : lineage.IsChild parent child) : Ascent lineage child (child :: above)

variable {shards : List Shard}

/-- Both ends of a link are in the list up to the parent's other fields. -/
theorem isChild_iff {parent child : Shard} :
    (ofShards shards).IsChild parent child ↔
      child ∈ shards ∧ child.parent = some parent.id ∧ ∃ listed ∈ shards, listed.id = parent.id :=
  mem_children

theorem Line.head {lineage : Lineage} {shard : Shard} {line : List Shard}
    (down : lineage.Line shard line) : ∃ rest, line = shard :: rest := by
  cases down with
  | tip childless => exact ⟨[], rfl⟩
  | through link rest => exact ⟨_, rfl⟩

theorem Ascent.head {lineage : Lineage} {shard : Shard} {way : List Shard}
    (up : lineage.Ascent shard way) : ∃ above, way = shard :: above := by
  cases up with
  | root member => exact ⟨[], rfl⟩
  | child rest link => exact ⟨_, rfl⟩

/-- Every rooted shard has a way up. -/
theorem Rooted.ascent {lineage : Lineage} {shard : Shard} (rooted : lineage.Rooted shard) :
    ∃ way, lineage.Ascent shard way := by
  obtain ⟨root, member, below⟩ := rooted
  induction below with
  | refl => exact ⟨_, .root member⟩
  | tail _ link inductionHypothesis =>
      obtain ⟨above, up⟩ := inductionHypothesis
      exact ⟨_, .child up link⟩

/-- Only shards of the list stand on a way up. -/
theorem Ascent.listed {shard : Shard} {way : List Shard}
    (up : (ofShards shards).Ascent shard way) : ∀ other ∈ way, other ∈ shards := by
  induction up with
  | root member =>
      intro other here
      rw [List.mem_singleton.mp here]
      exact (mem_roots.mp member).1
  | child rest link inductionHypothesis =>
      intro other here
      rcases List.mem_cons.mp here with rfl | above
      · exact (isChild_iff.mp link).1
      · exact inductionHypothesis other above

/-- Every shard on a way up has its own way up. -/
theorem Ascent.suffix {lineage : Lineage} {shard other : Shard} {way : List Shard}
    (up : lineage.Ascent shard way) (here : other ∈ way) :
    ∃ above, lineage.Ascent other above ∧ above <:+ way := by
  induction up with
  | root member =>
      rw [List.mem_singleton.mp here]
      exact ⟨_, .root member, List.suffix_refl _⟩
  | child rest link inductionHypothesis =>
      rcases List.mem_cons.mp here with rfl | above
      · exact ⟨_, .child rest link, List.suffix_refl _⟩
      · obtain ⟨shorter, up, within⟩ := inductionHypothesis above
        exact ⟨shorter, up, within.trans (List.suffix_cons _ _)⟩

/-- A root is nobody's child. -/
theorem not_isChild_root {root parent : Shard} (member : root ∈ (ofShards shards).roots) :
    ¬ (ofShards shards).IsChild parent root := by
  intro link
  obtain ⟨_, named, listed, known, same⟩ := isChild_iff.mp link
  exact (mem_roots.mp member).2 listed known (same ▸ named)

/-- Listed shards with one child have one id. -/
theorem isChild_unique {first second child : Shard}
    (distinct : (shards.map Shard.id).Nodup)
    (firstListed : first ∈ shards) (secondListed : second ∈ shards)
    (firstLink : (ofShards shards).IsChild first child)
    (secondLink : (ofShards shards).IsChild second child) : first = second := by
  have named := (isChild_iff.mp firstLink).2.1
  rw [(isChild_iff.mp secondLink).2.1] at named
  exact eq_of_id_eq distinct firstListed secondListed (Option.some.inj named).symm

/-- Only listed shards are below a listed shard. -/
theorem listed_of_below {top shard : Shard} (listed : top ∈ shards)
    (below : (ofShards shards).Below top shard) : shard ∈ shards := by
  rcases Relation.ReflTransGen.cases_tail below with rfl | ⟨parent, _, link⟩
  · exact listed
  · exact (isChild_iff.mp link).1

theorem listed_of_rooted {shard : Shard} (rooted : (ofShards shards).Rooted shard) :
    shard ∈ shards := by
  obtain ⟨root, member, below⟩ := rooted
  exact listed_of_below (mem_roots.mp member).1 below

/-- Of two shards above a third one is above the other. -/
theorem below_total (distinct : (shards.map Shard.id).Nodup) {first second shard : Shard}
    (firstListed : first ∈ shards) (secondListed : second ∈ shards)
    (firstBelow : (ofShards shards).Below first shard)
    (secondBelow : (ofShards shards).Below second shard) :
    (ofShards shards).Below first second ∨ (ofShards shards).Below second first := by
  induction firstBelow with
  | refl => exact .inr secondBelow
  | tail upper link inductionHypothesis =>
      rcases Relation.ReflTransGen.cases_tail secondBelow with rfl | ⟨parent, above, otherLink⟩
      · exact .inl (upper.tail link)
      · rw [isChild_unique distinct (listed_of_below secondListed above)
          (listed_of_below firstListed upper) otherLink link] at above
        exact inductionHypothesis above

/-- A shard has only one way up. -/
theorem Ascent.unique (distinct : (shards.map Shard.id).Nodup) {shard : Shard}
    {first second : List Shard} (firstUp : (ofShards shards).Ascent shard first)
    (secondUp : (ofShards shards).Ascent shard second) : first = second := by
  induction firstUp generalizing second with
  | root member =>
      cases secondUp with
      | root => rfl
      | child rest link => exact absurd link (not_isChild_root member)
  | child rest link inductionHypothesis =>
      cases secondUp with
      | root member => exact absurd link (not_isChild_root member)
      | child otherRest otherLink =>
          obtain ⟨_, rfl⟩ := rest.head
          obtain ⟨_, rfl⟩ := otherRest.head
          have same := isChild_unique distinct (rest.listed _ List.mem_cons_self)
            (otherRest.listed _ List.mem_cons_self) link otherLink
          subst same
          rw [inductionHypothesis otherRest]

/-- A way up repeats no shard. -/
theorem Ascent.nodup (distinct : (shards.map Shard.id).Nodup) {shard : Shard}
    {way : List Shard} (up : (ofShards shards).Ascent shard way) : way.Nodup := by
  induction up with
  | root member => exact List.nodup_singleton _
  | @child parent child above rest link inductionHypothesis =>
      refine List.nodup_cons.mpr ⟨fun repeated => ?_, inductionHypothesis⟩
      -- A repeated shard would have two ways up, and one would be a part of the other.
      obtain ⟨shorter, up, within⟩ := rest.suffix repeated
      have same := up.unique distinct (Ascent.child rest link)
      have short := within.length_le
      rw [same, List.length_cons] at short
      omega

/-- A way up is no longer than the list. -/
theorem Ascent.length_le (distinct : (shards.map Shard.id).Nodup) {shard : Shard}
    {way : List Shard} (up : (ofShards shards).Ascent shard way) : way.length ≤ shards.length :=
  ((up.nodup distinct).subperm up.listed).length_le

/-- What is left of the list bounds the walk below a shard. -/
theorem Ascent.endsWithin (distinct : (shards.map Shard.id).Nodup) {shard : Shard}
    {way : List Shard} (up : (ofShards shards).Ascent shard way) (depth : Nat)
    (left : shards.length < way.length + depth) : (ofShards shards).EndsWithin depth shard := by
  induction depth generalizing shard way with
  | zero =>
      have := up.length_le distinct
      omega
  | succ depth inductionHypothesis =>
      intro child link
      refine inductionHypothesis (.child up link) ?_
      rw [List.length_cons]
      omega

/-- Every walk down from a rooted shard ends within the length of the list. -/
theorem Rooted.endsWithin (distinct : (shards.map Shard.id).Nodup) {shard : Shard}
    (rooted : (ofShards shards).Rooted shard) :
    (ofShards shards).EndsWithin shards.length shard := by
  obtain ⟨way, up⟩ := rooted.ascent
  obtain ⟨above, rfl⟩ := up.head
  refine up.endsWithin distinct _ ?_
  rw [List.length_cons]
  omega

/-- A list is acyclic when some rank rises from every parent to its children. -/
theorem acyclic_of_rank (rank : ShardId → Nat)
    (rises : ∀ parent ∈ shards, ∀ child ∈ shards, child.parent = some parent.id →
      rank parent.id < rank child.id) : (ofShards shards).Acyclic := by
  have link : ∀ parent child, (ofShards shards).IsChild parent child →
      rank parent.id < rank child.id := by
    intro parent child link
    obtain ⟨listed, named, known, knownListed, same⟩ := isChild_iff.mp link
    rw [← same] at named ⊢
    exact rises known knownListed child listed named
  have below : ∀ {top shard}, (ofShards shards).StrictlyBelow top shard →
      rank top.id < rank shard.id := by
    intro top shard below
    induction below with
    | single first => exact link _ _ first
    | tail _ last inductionHypothesis => exact Nat.lt_trans inductionHypothesis (link _ _ last)
  exact fun shard around => Nat.lt_irrefl _ (below around)

/-- Every shard of an acyclic list is rooted. -/
theorem Acyclic.rooted (acyclic : (ofShards shards).Acyclic) {shard : Shard}
    (listed : shard ∈ shards) : (ofShards shards).Rooted shard := by
  -- On a finite list the order of descent is well founded, and its minimal shards are the roots.
  let above : {shard // shard ∈ shards} → {shard // shard ∈ shards} → Prop :=
    fun first second => (ofShards shards).StrictlyBelow first second
  have : IsTrans _ above := ⟨fun _ _ _ first second => first.trans second⟩
  have : Std.Irrefl above := ⟨fun shard => acyclic shard⟩
  have wellFounded := Finite.wellFounded_of_trans_of_irrefl above
  have every : ∀ current : {shard // shard ∈ shards}, (ofShards shards).Rooted current := by
    intro current
    induction current using wellFounded.induction with
    | h current inductionHypothesis =>
        by_cases root : current.1 ∈ (ofShards shards).roots
        · exact ⟨current, root, .refl⟩
        · have named : ∃ parent ∈ shards, current.1.parent = some parent.id := by
            by_contra orphan
            push Not at orphan
            exact root (mem_roots.mpr ⟨current.2, orphan⟩)
          obtain ⟨parent, parentListed, named⟩ := named
          have link : (ofShards shards).IsChild parent current :=
            isChild_iff.mpr ⟨current.2, named, parent, parentListed, rfl⟩
          obtain ⟨root, member, below⟩ := inductionHypothesis ⟨parent, parentListed⟩ (.single link)
          exact ⟨root, member, below.tail link⟩
  exact every ⟨shard, listed⟩

end Lineage
end ShardedStream
