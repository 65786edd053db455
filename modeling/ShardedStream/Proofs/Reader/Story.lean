import Mathlib.Algebra.Order.Ring.Nat
import ShardedStream.Proofs.Reader.Effect
import ShardedStream.Proofs.Reader.Tell

/-!
The story of a shard, as its events tell it.
It begins with the assignment. Batches are told as they are read, and a shard that is done has last
been exhausted and then completed. Each visit carries the story on by what its outcome is told as.
-/

namespace ShardedStream

/-- What is told about one shard. -/
def kindsOf (shard : ShardId) (log : List Event) : List EventKind :=
  (log.filter fun event => event.shard = shard).map Event.kind

namespace EventKind

def isAssigned : EventKind → Bool
  | .shard .assigned _ => true
  | _ => false

def isCompleted : EventKind → Bool
  | .shard .completed _ => true
  | _ => false

/-- A batch is told by its size and lag. -/
def batch? : EventKind → Option (Nat × Int)
  | .batchRead count lag => some (count, lag)
  | _ => none

/-- The detail of a completed shard tells how many shards it has brought. -/
def completion? : EventKind → Option (Option String)
  | .shard .completed detail => some detail
  | _ => none

end EventKind

/-- The details of all shards that a log tells to be done. -/
def completionsOf (log : List Event) : List (Option String) :=
  log.filterMap fun event => event.kind.completion?

@[simp] theorem completionsOf_append (first second : List Event) :
    completionsOf (first ++ second) = completionsOf first ++ completionsOf second :=
  List.filterMap_append

/-- The detail of a shard that has brought so many shards. -/
def successorsText (count : Nat) : String := Nat.repr count ++ " successors"

/-- What is told of a transition that brings so many shards. -/
def Transition.kinds (count : Nat) : Transition → List EventKind
  | .continued _ => []
  | .exhausted => [.shard .exhausted none]
  | .throttled _ => [.throttled "get_records"]
  | .expired => [.iterator .expired none]
  | .noIterator => [.iterator .unavailable none]
  | .successorsKnown _ => [.shard .completed (some (successorsText count))]
  | .successorsUnknown => []
  | .idle => []

/-- A batch has a size and a lag. -/
def Outcome.batch? (outcome : Outcome) : Option (Nat × Int) :=
  outcome.lag.map fun lag => (outcome.records.length, lag)

/-- What is told of a batch. -/
def batchKinds (batch? : Option (Nat × Int)) : List EventKind :=
  (batch?.map fun batch => .batchRead batch.1 batch.2).toList

/-- What is told about the shard of an outcome. -/
def Outcome.kinds (outcome : Outcome) (count : Nat) : List EventKind :=
  batchKinds outcome.batch? ++ outcome.transition.kinds count

section Kinds

variable {shard : ShardId} {added : List Assignment}

@[simp] theorem kindsOf_append (shard : ShardId) (first second : List Event) :
    kindsOf shard (first ++ second) = kindsOf shard first ++ kindsOf shard second := by
  rw [kindsOf, List.filter_append, List.map_append]
  rfl

/-- Everything told about one shard is told about it. -/
theorem kindsOf_own (shard : ShardId) (kinds : List EventKind) :
    kindsOf shard (kinds.map (Event.mk shard)) = kinds := by
  rw [kindsOf, List.filter_eq_self.mpr, List.map_map]
  · exact List.map_id kinds
  · intro event member
    obtain ⟨kind, _, rfl⟩ := List.mem_map.mp member
    exact decide_eq_true rfl

theorem kindsOf_other {other : ShardId} (apart : shard ≠ other) (kinds : List EventKind) :
    kindsOf other (kinds.map (Event.mk shard)) = [] := by
  rw [kindsOf, List.filter_eq_nil_iff.mpr, List.map_nil]
  intro event member
  obtain ⟨kind, _, rfl⟩ := List.mem_map.mp member
  exact fun same => apart (of_decide_eq_true same)

/-- Shards that are not assigned are not announced. -/
theorem kindsOf_unassigned (untold : shard ∉ added.map Assignment.shard) :
    kindsOf shard (assignedEvents added) = [] := by
  rw [kindsOf, List.filter_eq_nil_iff.mpr, List.map_nil]
  intro event member same
  obtain ⟨entry, here, rfl⟩ := List.mem_map.mp member
  exact untold (List.mem_map.mpr ⟨entry, here, of_decide_eq_true same⟩)

/-- An assigned shard is announced once. -/
theorem kindsOf_assigned (distinct : (added.map Assignment.shard).Nodup) {entry : Assignment}
    (member : entry ∈ added) :
    kindsOf entry.shard (assignedEvents added) =
      [.shard .assigned (some entry.position.text)] := by
  induction added with
  | nil => cases member
  | cons first added inductionHypothesis =>
      obtain ⟨fresh, distinct⟩ := List.nodup_cons.mp distinct
      change kindsOf entry.shard ([.shard .assigned (some first.position.text)].map
        (Event.mk first.shard) ++ assignedEvents added) = _
      rw [kindsOf_append]
      rcases List.mem_cons.mp member with rfl | rest
      · rw [kindsOf_own, kindsOf_unassigned fresh, List.append_nil]
      · have apart : first.shard ≠ entry.shard := fun same =>
          fresh (same ▸ List.mem_map_of_mem rest)
        rw [kindsOf_other apart, inductionHypothesis distinct rest, List.nil_append]

/-- An assignment completes nothing. -/
theorem completionsOf_assigned (added : List Assignment) :
    completionsOf (assignedEvents added) = [] := by
  refine List.filterMap_eq_nil_iff.mpr fun event member => ?_
  obtain ⟨entry, _, rfl⟩ := List.mem_map.mp member
  rfl

end Kinds

namespace Reader

section Acquires

variable {shard other : ShardId} {events : List Event}

theorem Acquires.kinds (acquires : Acquires shard events) :
    ∀ kind ∈ kindsOf other events, kind = .iterator .acquired none := by
  cases acquires with
  | nothing => exact fun _ member => absurd member List.not_mem_nil
  | iterator =>
      intro kind member
      obtain ⟨event, here, rfl⟩ := List.mem_map.mp member
      rw [List.mem_singleton.mp (List.mem_filter.mp here).1]

theorem Acquires.kinds_other (acquires : Acquires shard events) (apart : shard ≠ other) :
    kindsOf other events = [] := by
  cases acquires with
  | nothing => rfl
  | iterator => exact kindsOf_other apart [.iterator .acquired none]

theorem Acquires.completions (acquires : Acquires shard events) : completionsOf events = [] := by
  cases acquires <;> rfl

end Acquires

variable {reader : Reader} {outcome : Outcome}

theorem events_lagReports (outcome : Outcome) :
    (lagReports outcome).filterMap Report.event? =
      (batchKinds outcome.batch?).map (Event.mk outcome.shard) := by
  unfold lagReports batchKinds Outcome.batch?
  cases outcome.lag <;> rfl

/-- A transition announces the shards that it brings before it is told itself. -/
theorem events_reports (reader : Reader) (shard : ShardId) (resume : Position)
    (transition : Transition) :
    (transition.reports shard resume (reader.brought transition)).filterMap Report.event? =
      assignedEvents (reader.brought transition) ++
        (transition.kinds (reader.brought transition).length).map (Event.mk shard) := by
  cases transition with
  | successorsKnown assignments =>
      rw [Transition.reports, List.filterMap_append, filterMap_assignedReports]
      rfl
  | _ => rfl

/-- This is told of an applied outcome. -/
def eventsOf (reader : Reader) (outcome : Outcome) : List Event :=
  (batchKinds outcome.batch?).map (Event.mk outcome.shard) ++
    (assignedEvents (reader.brought outcome.transition) ++
      (outcome.transition.kinds (reader.brought outcome.transition).length).map
        (Event.mk outcome.shard))

theorem events_apply {tracked : Tracked} (indexed : reader.Indexed)
    (member : tracked ∈ reader.shards) (own : outcome.shard = tracked.id) :
    (reader.apply outcome).1.reports.filterMap Report.event? = reader.eventsOf outcome := by
  rw [effect_apply indexed member own, Outcome.effect, List.filterMap_append, events_lagReports,
    events_reports, eventsOf]

/-- Of its own shard an outcome tells what it has read and how it goes on. -/
theorem kindsOf_eventsOf (untold : outcome.shard ∉
    (reader.brought outcome.transition).map Assignment.shard) :
    kindsOf outcome.shard (reader.eventsOf outcome) =
      outcome.kinds (reader.brought outcome.transition).length := by
  rw [eventsOf, kindsOf_append, kindsOf_append, kindsOf_own, kindsOf_own,
    kindsOf_unassigned untold, List.nil_append, Outcome.kinds]

/-- It tells of a shard that is done exactly when it brings the shards that follow on it. -/
theorem completionsOf_eventsOf (reader : Reader) (outcome : Outcome) :
    ∃ counts : List Nat, completionsOf (reader.eventsOf outcome) =
        counts.map (fun count => some (successorsText count)) ∧
      (reader.brought outcome.transition).length = counts.sum := by
  have batch : completionsOf ((batchKinds outcome.batch?).map (Event.mk outcome.shard)) = [] := by
    unfold batchKinds
    cases outcome.batch? <;> rfl
  rw [eventsOf, completionsOf_append, completionsOf_append, batch, completionsOf_assigned]
  cases outcome.transition with
  | successorsKnown assignments => exact ⟨[_], rfl, (Nat.add_zero _).symm⟩
  | _ => exact ⟨[], rfl, rfl⟩

/-- Of any other shard it tells nothing but that it brings it. -/
theorem kindsOf_eventsOf_other {other : ShardId} (apart : outcome.shard ≠ other) :
    kindsOf other (reader.eventsOf outcome) =
      kindsOf other (assignedEvents (reader.brought outcome.transition)) := by
  rw [eventsOf, kindsOf_append, kindsOf_append, kindsOf_other apart, kindsOf_other apart,
    List.nil_append, List.append_nil]

end Reader

/-- Nothing tells that the shard is done. -/
def Uncompleted (kinds : List EventKind) : Prop := ∀ kind ∈ kinds, kind.isCompleted = false

theorem Uncompleted.append {first second : List EventKind} (before : Uncompleted first)
    (after : Uncompleted second) : Uncompleted (first ++ second) := fun kind member =>
  (List.mem_append.mp member).elim (before kind) (after kind)

theorem Uncompleted.snoc {kinds : List EventKind} {kind : EventKind} (before : Uncompleted kinds)
    (ongoing : kind.isCompleted = false) : Uncompleted (kinds ++ [kind]) :=
  before.append fun _ member => List.mem_singleton.mp member ▸ ongoing

/-- What is told last of a shard tells whether it has been read to its end. -/
def Phase.Told : Phase → List EventKind → Prop
  | .waiting _, kinds => Uncompleted kinds
  | .reading _, kinds => Uncompleted kinds
  | .exhausted, kinds =>
    ∃ before, Uncompleted before ∧ kinds = before ++ [.shard .exhausted none]
  | .done, kinds => ∃ before count, Uncompleted before ∧ kinds =
      before ++ [.shard .exhausted none, .shard .completed (some (successorsText count))]

/-- A shard that was assigned a position has been told about, with the batches read from it. -/
structure Story (start : Position) (kinds : List EventKind) (batches : List (Nat × Int))
    (phase : Phase) : Prop where
  assigned : ∃ rest, kinds = .shard .assigned (some start.text) :: rest ∧
    ∀ kind ∈ rest, kind.isAssigned = false
  read : kinds.filterMap EventKind.batch? = batches
  told : phase.Told kinds

section Told

variable {phase : Phase} {kinds more : List EventKind} {batches : List (Nat × Int)}
  {start : Position}

theorem Phase.told_of_uncompleted (ongoing : phase.isEnded = false)
    (uncompleted : Uncompleted kinds) : phase.Told kinds := by
  cases phase with
  | waiting => exact uncompleted
  | reading => exact uncompleted
  | exhausted => cases ongoing
  | done => cases ongoing

theorem Phase.Told.uncompleted (told : phase.Told kinds) (unfinished : phase ≠ .done) :
    Uncompleted kinds := by
  cases phase with
  | waiting => exact told
  | reading => exact told
  | exhausted =>
      obtain ⟨before, uncompleted, rfl⟩ := told
      exact uncompleted.snoc rfl
  | done => exact absurd rfl unfinished

namespace Story

/-- The story begins when the shard is assigned. -/
theorem begin (start : Position) :
    Story start [.shard .assigned (some start.text)] [] (.waiting start) where
  assigned := ⟨[], rfl, fun _ member => absurd member List.not_mem_nil⟩
  read := rfl
  told := fun kind member => by
    rw [List.mem_singleton.mp member]
    rfl

/-- No shard is assigned twice as its story goes on. -/
theorem extend (story : Story start kinds batches phase)
    (unassigned : ∀ kind ∈ more, kind.isAssigned = false) {later : Phase}
    (told : later.Told (kinds ++ more)) :
    Story start (kinds ++ more) (batches ++ more.filterMap EventKind.batch?) later where
  assigned := by
    obtain ⟨rest, rfl, once⟩ := story.assigned
    exact ⟨rest ++ more, rfl, fun kind member =>
      (List.mem_append.mp member).elim (once kind) (unassigned kind)⟩
  read := by rw [List.filterMap_append, story.read]
  told := told

/-- A shard that is not done may be restarted. -/
theorem restart (story : Story start kinds batches phase) (unfinished : phase ≠ .done)
    (position : Position) : Story start kinds batches (.waiting position) :=
  ⟨story.assigned, story.read, story.told.uncompleted unfinished⟩

end Story

end Told

theorem unassigned_kinds (outcome : Outcome) (count : Nat) :
    ∀ kind ∈ outcome.kinds count, kind.isAssigned = false := by
  have none : (outcome.transition.kinds count).any EventKind.isAssigned = false := by
    cases outcome.transition <;> rfl
  intro kind member
  rcases List.mem_append.mp member with batch | transition
  · obtain ⟨_, _, rfl⟩ := Option.map_eq_some_iff.mp (Option.mem_toList.mp batch)
    rfl
  · exact Bool.eq_false_iff.mpr (List.any_eq_false.mp none kind transition)

theorem batches_kinds (outcome : Outcome) (count : Nat) :
    (outcome.kinds count).filterMap EventKind.batch? = outcome.batch?.toList := by
  have none : (outcome.transition.kinds count).filterMap EventKind.batch? = [] := by
    cases outcome.transition <;> rfl
  rw [Outcome.kinds, List.filterMap_append, none, List.append_nil, batchKinds]
  cases outcome.batch? <;> rfl

theorem uncompleted_batch (batch? : Option (Nat × Int)) : Uncompleted (batchKinds batch?) := by
  intro kind member
  obtain ⟨_, _, rfl⟩ := Option.map_eq_some_iff.mp (Option.mem_toList.mp member)
  rfl

section Visit

variable {σ : Type} {service : Service σ} {reader : Reader} {tracked : Tracked}
  {world later : World σ} {outcome : Outcome} {before kinds acquired : List EventKind}
  {batches : List (Nat × Int)} {start : Position}

/-- A read goes on with its shard, or it exhausts it. -/
theorem Reader.Reads.told {token : Token} {fresh : Bool}
    (reads : reader.Reads service tracked.id token fresh world outcome later)
    (ongoing : tracked.phase.isEnded = false) (uncompleted : Uncompleted before) (count : Nat)
    (resume : Position) :
    (tracked.enter (outcome.transition.phase? resume)).phase.Told
      (before ++ outcome.kinds count) := by
  cases reads with
  | @batch batch _ _ =>
      have read := uncompleted.append (uncompleted_batch (Outcome.ofBatch tracked.id batch).batch?)
      obtain ⟨records, next, lag⟩ := batch
      rw [Outcome.kinds, ← List.append_assoc]
      cases next with
      | none => exact ⟨_, read, rfl⟩
      | some next => exact Phase.told_of_uncompleted rfl (read.append nofun)
  | postponed _ =>
      have told : Uncompleted (before ++ [.throttled "get_records"]) := uncompleted.snoc rfl
      cases fresh with
      | true => exact Phase.told_of_uncompleted rfl told
      | false => exact Phase.told_of_uncompleted ongoing told
  | expired _ => exact Phase.told_of_uncompleted rfl (uncompleted.snoc rfl)

/-- An iterator that has been got changes nothing for its shard. -/
theorem Story.acquire {phase : Phase} (story : Story start kinds batches phase)
    (passing : ∀ kind ∈ acquired, kind = .iterator .acquired none)
    (waits : acquired ≠ [] → ∃ position, phase = .waiting position) :
    Story start (kinds ++ acquired) batches phase := by
  by_cases silent : acquired = []
  · rwa [silent, List.append_nil]
  · obtain ⟨position, rfl⟩ := waits silent
    have unread : acquired.filterMap EventKind.batch? = [] :=
      List.filterMap_eq_nil_iff.mpr fun kind member => by rw [passing kind member]; rfl
    have uncompleted : (Phase.waiting position).Told (kinds ++ acquired) :=
      Uncompleted.append story.told fun kind member => by rw [passing kind member]; rfl
    have extended := story.extend (fun kind member => by rw [passing kind member]; rfl) uncompleted
    rwa [unread, List.append_nil] at extended

/-- A visit goes on with the story of its shard. -/
theorem Story.visit (story : Story start kinds batches tracked.phase)
    (steps : reader.Steps service tracked world outcome later) (count : Nat)
    (resume : Position) :
    Story start (kinds ++ outcome.kinds count) (batches ++ outcome.batch?.toList)
      (tracked.enter (outcome.transition.phase? resume)).phase := by
  have told : (tracked.enter (outcome.transition.phase? resume)).phase.Told
      (kinds ++ outcome.kinds count) := by
    cases steps with
    | opened waiting _ reads =>
        exact reads.told (by rw [waiting]; rfl) (story.told.uncompleted (by simp [waiting]))
          count resume
    | unopened waiting _ =>
        have ongoing : tracked.phase.isEnded = false := by rw [waiting]; rfl
        exact Phase.told_of_uncompleted ongoing
          ((story.told.uncompleted (by simp [waiting])).snoc rfl)
    | missing waiting _ _ => exact ⟨_, story.told.uncompleted (by simp [waiting]), rfl⟩
    | read reading reads =>
        exact reads.told (by rw [reading]; rfl) (story.told.uncompleted (by simp [reading]))
          count resume
    | described ended _ =>
        -- The shard waits for its successors, so it has been told last that it is exhausted.
        have told := story.told
        rw [ended] at told
        obtain ⟨before, uncompleted, rfl⟩ := told
        exact ⟨before, count, uncompleted, by rw [List.append_assoc]; rfl⟩
    | undescribed _ _ => exact (List.append_nil kinds).symm ▸ story.told
    | idle _ => exact (List.append_nil kinds).symm ▸ story.told
  have extended := story.extend (unassigned_kinds outcome count) told
  rwa [batches_kinds] at extended

end Visit

/-- This is how a starting position is said in words. -/
inductive Position.SaidAs : Position → String → Prop
  | trimHorizon : SaidAs .trimHorizon "TRIM_HORIZON"
  | latest : SaidAs .latest "LATEST"
  | afterSequence (sequence : SequenceNumber) :
    SaidAs (.afterSequence sequence) ("AFTER_SEQUENCE_NUMBER(" ++ sequence ++ ")")
  | atSequence (sequence : SequenceNumber) :
    SaidAs (.atSequence sequence) ("AT_SEQUENCE_NUMBER(" ++ sequence ++ ")")

theorem Position.saidAs_text (position : Position) : position.SaidAs position.text := by
  cases position with
  | trimHorizon => exact .trimHorizon
  | latest => exact .latest
  | afterSequence sequence => exact .afterSequence sequence
  | atSequence sequence => exact .atSequence sequence

/-- No two positions are said in the same words. -/
theorem Position.SaidAs.unique {first second : Position} {said : String}
    (one : first.SaidAs said) (other : second.SaidAs said) : first = second := by
  generalize same : said = words at other
  have letters := congrArg String.toList same
  cases one <;> cases other <;>
    simp [String.toList_append, String.toList_inj] at letters ⊢ <;> exact letters

/-- This is what a log tells of a tracked shard that was assigned a position. -/
structure Account (start : Position) (phase : Phase) (kinds : List EventKind)
    (batches : List (Nat × Int)) : Prop where
  assigned : ∃ said rest, start.SaidAs said ∧ kinds = .shard .assigned (some said) :: rest ∧
    ∀ kind ∈ rest, kind.isAssigned = false
  once : kinds.countP EventKind.isCompleted ≤ 1
  completed : (∃ kind ∈ kinds, kind.isCompleted = true) ↔ phase = .done
  last : ∀ before kind after, kinds = before ++ kind :: after → kind.isCompleted = true →
    after = [] ∧ before.getLast? = some (.shard .exhausted none)
  read : kinds.filterMap EventKind.batch? = batches

section Account

variable {phase : Phase} {kinds : List EventKind} {batches : List (Nat × Int)} {start : Position}

theorem Uncompleted.countP (uncompleted : Uncompleted kinds) :
    kinds.countP EventKind.isCompleted = 0 :=
  List.countP_eq_zero.mpr fun kind member => ne_true_of_eq_false (uncompleted kind member)

/-- The only shard event that completes is the last one. -/
theorem Uncompleted.last {front before after : List EventKind} {kind final : EventKind}
    (uncompleted : Uncompleted front) (split : front ++ [final] = before ++ kind :: after)
    (completed : kind.isCompleted = true) : before = front ∧ after = [] := by
  rcases List.append_eq_append_iff.mp split with ⟨rest, rfl, tail⟩ | ⟨rest, rfl, tail⟩
  · cases rest with
    | nil => exact ⟨List.append_nil front, (List.cons.inj tail).2.symm⟩
    | cons other rest => cases rest <;> cases (List.cons.inj tail).2
  · cases rest with
    | nil => exact ⟨(List.append_nil before).symm, (List.cons.inj tail).2⟩
    | cons other rest =>
        obtain ⟨rfl, _⟩ := List.cons.inj tail
        have ongoing := uncompleted kind (List.mem_append_right _ List.mem_cons_self)
        rw [ongoing] at completed
        cases completed

/-- A shard that is done has been completed last. -/
theorem Phase.Told.of_done (told : Phase.Told .done kinds) :
    ∃ front final, kinds = front ++ [final] ∧ Uncompleted front ∧ final.isCompleted = true ∧
      front.getLast? = some (.shard .exhausted none) := by
  obtain ⟨before, count, uncompleted, rfl⟩ := told
  exact ⟨before ++ [.shard .exhausted none], .shard .completed (some (successorsText count)),
    by rw [List.append_assoc]; rfl, uncompleted.snoc rfl, rfl, by simp⟩

theorem Story.said (story : Story start kinds batches phase) :
    ∃ said rest, start.SaidAs said ∧ kinds = .shard .assigned (some said) :: rest ∧
      ∀ kind ∈ rest, kind.isAssigned = false :=
  ⟨start.text, story.assigned.imp fun _ tells => ⟨start.saidAs_text, tells⟩⟩

/-- A shard is told to be done once at most, at the very end, and only when it is. -/
theorem Story.account (story : Story start kinds batches phase) :
    Account start phase kinds batches := by
  by_cases done : phase = .done
  · obtain ⟨front, final, rfl, uncompleted, completed, exhausted⟩ :=
      Phase.Told.of_done (done ▸ story.told)
    refine ⟨story.said, ?_, ⟨fun _ => done, fun _ => ⟨final, by simp, completed⟩⟩,
      fun before kind after split its => ?_, story.read⟩
    · rw [List.countP_append, uncompleted.countP, Nat.zero_add]
      exact List.countP_le_length
    · obtain ⟨rfl, rfl⟩ := uncompleted.last split its
      exact ⟨rfl, exhausted⟩
  · have uncompleted := story.told.uncompleted done
    have never : ∀ kind ∈ kinds, ¬ kind.isCompleted = true := fun kind member =>
      ne_true_of_eq_false (uncompleted kind member)
    refine ⟨story.said, uncompleted.countP ▸ Nat.zero_le 1,
      ⟨fun ⟨kind, member, completed⟩ => absurd completed (never kind member),
        fun finished => absurd finished done⟩,
      fun before kind after split completed => ?_, story.read⟩
    exact absurd completed (never kind (split ▸ List.mem_append_right _ List.mem_cons_self))

end Account

end ShardedStream
