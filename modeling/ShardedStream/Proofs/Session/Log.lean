import Mathlib.Data.List.Nodup
import ShardedStream.Proofs.Reader.Step

/-!
Services that keep a log for every shard.
A log only grows, an iterator stands at a place of its log, and a read returns a run of records from
there on.
-/

namespace ShardedStream

/-- A position stands before one place of a log; nothing is said about the newest records. -/
def Position.StandsAt (log : List Record) (place : Nat) : Position → Prop
  | .trimHorizon => place = 0
  | .latest => False
  | .afterSequence sequence => ∃ before record,
      log[before]? = some record ∧ record.sequence = sequence ∧ place = before + 1
  | .atSequence sequence => ∃ record, log[place]? = some record ∧ record.sequence = sequence

/-- The records are the run of a log that begins at a position and ends before a place. -/
def RunsTo (log : List Record) (start : Position) (records : List Record) (place : Nat) : Prop :=
  ∃ first, start.StandsAt log first ∧ place = first + records.length ∧ records <+: log.drop first

/-- Nothing has been read and a position is the first one, or it stands where the run ends. -/
def Continues (log : List Record) (start : Position) (records : List Record)
    (resume : Position) : Prop :=
  (records = [] ∧ resume = start) ∨ ∃ place, RunsTo log start records place ∧
    resume.StandsAt log place

variable {log grown : List Record} {start resume : Position} {records more : List Record}
  {record : Record} {place other : Nat}

namespace Position.StandsAt

/-- A position keeps its place while the log grows. -/
theorem mono (grows : log <+: grown) (stands : start.StandsAt log place) :
    start.StandsAt grown place := by
  obtain ⟨rest, rfl⟩ := grows
  have kept : ∀ {index : Nat} {record : Record}, log[index]? = some record →
      (log ++ rest)[index]? = some record := by
    intro index record found
    rw [List.getElem?_append_left (List.getElem?_eq_some_iff.mp found).1, found]
  cases start with
  | trimHorizon => exact stands
  | latest => exact stands
  | afterSequence sequence =>
      obtain ⟨before, record, found, same, after⟩ := stands
      exact ⟨before, record, kept found, same, after⟩
  | atSequence sequence =>
      obtain ⟨record, found, same⟩ := stands
      exact ⟨record, kept found, same⟩

theorem le_length (stands : start.StandsAt log place) : place ≤ log.length := by
  cases start with
  | trimHorizon =>
      rw [show place = 0 from stands]
      exact Nat.zero_le _
  | latest => exact stands.elim
  | afterSequence sequence =>
      obtain ⟨before, record, found, _, rfl⟩ := stands
      exact (List.getElem?_eq_some_iff.mp found).1
  | atSequence sequence =>
      obtain ⟨record, found, _⟩ := stands
      exact Nat.le_of_lt (List.getElem?_eq_some_iff.mp found).1

/-- Records with different numbers leave a position only one place. -/
theorem unique (distinct : (log.map Record.sequence).Nodup) (first : start.StandsAt log place)
    (second : start.StandsAt log other) : place = other := by
  have same : ∀ {left right : Nat} {one two : Record}, log[left]? = some one →
      log[right]? = some two → one.sequence = two.sequence → left = right := by
    intro left right one two foundLeft foundRight equal
    have within : left < (log.map Record.sequence).length := by
      rw [List.length_map]
      exact (List.getElem?_eq_some_iff.mp foundLeft).1
    refine (List.getElem?_inj within distinct).mp ?_
    rw [List.getElem?_map, List.getElem?_map, foundLeft, foundRight]
    exact congrArg some equal
  cases start with
  | trimHorizon => exact Eq.trans (show place = 0 from first) (show other = 0 from second).symm
  | latest => exact first.elim
  | afterSequence sequence =>
      obtain ⟨before, record, found, equal, rfl⟩ := first
      obtain ⟨otherBefore, otherRecord, otherFound, otherEqual, rfl⟩ := second
      rw [same found otherFound (equal.trans otherEqual.symm)]
  | atSequence sequence =>
      obtain ⟨record, found, equal⟩ := first
      obtain ⟨otherRecord, otherFound, otherEqual⟩ := second
      exact same found otherFound (equal.trans otherEqual.symm)

end Position.StandsAt

namespace RunsTo

theorem mono (grows : log <+: grown) (runs : RunsTo log start records place) :
    RunsTo grown start records place := by
  obtain ⟨first, stands, ends, within⟩ := runs
  refine ⟨first, stands.mono grows, ends, within.trans ?_⟩
  obtain ⟨rest, rfl⟩ := grows
  rw [List.drop_append_of_le_length stands.le_length]
  exact List.prefix_append _ _

/-- What follows a run continues it. -/
theorem append (runs : RunsTo log start records place) (follows : more <+: log.drop place) :
    RunsTo log start (records ++ more) (place + more.length) := by
  obtain ⟨first, stands, rfl, rest, whole⟩ := runs
  refine ⟨first, stands, by rw [List.length_append]; omega, ?_⟩
  rw [← List.drop_drop, ← whole, List.drop_left] at follows
  rw [← whole]
  exact List.prefix_append_right_inj records |>.mpr follows

/-- Within a run every record stands where the records before it end. -/
theorem split (runs : RunsTo log start (records ++ record :: more) place) :
    ∃ before, RunsTo log start records before ∧ log[before]? = some record := by
  obtain ⟨first, stands, _, rest, whole⟩ := runs
  refine ⟨first + records.length, ⟨first, stands, rfl, record :: more ++ rest, ?_⟩, ?_⟩
  · rw [← whole, List.append_assoc]
  · rw [← List.getElem?_drop, ← whole, List.append_assoc,
      List.getElem?_append_right (Nat.le_refl _), Nat.sub_self]
    rfl

end RunsTo

namespace Continues

theorem mono (grows : log <+: grown) (continues : Continues log start records resume) :
    Continues grown start records resume := by
  rcases continues with unread | ⟨place, runs, stands⟩
  · exact .inl unread
  · exact .inr ⟨place, runs.mono grows, stands.mono grows⟩

/-- A run that began elsewhere than at the newest records never goes on there. -/
theorem ne_latest (known : start ≠ .latest) (continues : Continues log start records resume) :
    resume ≠ .latest := by
  rcases continues with ⟨_, rfl⟩ | ⟨place, _, stands⟩
  · exact known
  · rintro rfl
    exact stands

/-- Where the position stands the run goes on. -/
theorem runsTo (distinct : (log.map Record.sequence).Nodup)
    (continues : Continues log start records resume) (stands : resume.StandsAt log place) :
    RunsTo log start records place := by
  rcases continues with ⟨rfl, rfl⟩ | ⟨before, runs, other⟩
  · exact ⟨place, stands, rfl, List.nil_prefix⟩
  · rw [stands.unique distinct other]
    exact runs

/-- A run goes on after its last record. -/
theorem afterLast (runs : RunsTo log start (records ++ record :: more) place) :
    Continues log start (records ++ [record]) (.afterSequence record.sequence) := by
  obtain ⟨before, shorter, found⟩ := runs.split
  refine .inr ⟨before + 1, shorter.append ?_, before, record, found, rfl, rfl⟩
  rw [List.drop_eq_getElem?_toList_append, found]
  exact List.prefix_append _ _

/-- A run goes on at the record that follows it. -/
theorem atNext (runs : RunsTo log start (records ++ record :: more) place) :
    Continues log start records (.atSequence record.sequence) := by
  obtain ⟨before, shorter, found⟩ := runs.split
  exact .inr ⟨before, shorter, record, found, rfl⟩

end Continues

/--
This is a service that keeps a log for every shard. Its iterators stand in the logs, reads return
runs of records, and no shard is ever gone. Any call may fail otherwise or take too long.
-/
structure LogService {σ : Type} (service : Service σ) where
  log : σ → ShardId → List Record
  closed : σ → ShardId → Prop
  /-- The token stands at the place of the shard's log. -/
  stands : σ → Token → ShardId → Nat → Prop
  distinct : ∀ state shard, ((log state shard).map Record.sequence).Nodup
  grows : ∀ request time state shard,
    log state shard <+: log (service.call request time state).2 shard
  staysClosed : ∀ request time state shard, closed state shard →
    closed (service.call request time state).2 shard ∧
      log (service.call request time state).2 shard = log state shard
  keepsTokens : ∀ request time state token shard place, stands state token shard place →
    stands (service.call request time state).2 token shard place
  opens : ∀ stream shard position time state token,
    (service.call (.openIterator stream shard position) time state).1.result = .ok token →
    position ≠ .latest →
    ∃ place, position.StandsAt
        (log (service.call (.openIterator stream shard position) time state).2 shard) place ∧
      stands (service.call (.openIterator stream shard position) time state).2 token shard place
  opensKnown : ∀ stream shard position time state fault,
    (service.call (.openIterator stream shard position) time state).1.result = .error fault →
    fault.isNotFound = false
  reads : ∀ token limit time state batch shard place,
    (service.call (.readRecords token limit) time state).1.result = .ok batch →
    stands state token shard place →
    batch.records <+:
        (log (service.call (.readRecords token limit) time state).2 shard).drop place ∧
      match batch.next with
      | some next => stands (service.call (.readRecords token limit) time state).2 next shard
          (place + batch.records.length)
      | none => closed (service.call (.readRecords token limit) time state).2 shard ∧
          place + batch.records.length =
            (log (service.call (.readRecords token limit) time state).2 shard).length
  readsKnown : ∀ token limit time state fault,
    (service.call (.readRecords token limit) time state).1.result = .error fault →
    fault.isNotFound = false

end ShardedStream
