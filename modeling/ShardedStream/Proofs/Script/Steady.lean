import ShardedStream.Proofs.Assignments.Local
import ShardedStream.Proofs.Assignments.Order
import ShardedStream.Proofs.Reader.Ancestry
import ShardedStream.Proofs.Script.Advance
import ShardedStream.Proofs.Script.Twins

/-!
Sessions over one description.
While the stream is described by one list all the time, a shard that is not tracked keeps the entry
that it started with, and nothing is tracked below a shard that is not done. So the successors of a
shard are fixed before anything is read.
-/

namespace ShardedStream

open Script

variable {shards : List Shard} {settings : ReaderSettings} {names : ShardId → Token → Prop}
  {only : ShardId} {before after : Script}

namespace Script

/-- The service issues the token for the shard. -/
def Issues (shard : ShardId) (token : Token) : Prop := ∃ number, token = tokenText shard number

/-- The script neither describes the stream nor names tokens. -/
structure Plain (shards : List Shard) (script : Script) : Prop where
  description : script.description = shards
  undescribed : script.descriptions = []
  unnamed : ∀ shard, ∀ reply ∈ script.iterators.getD shard [], ∀ token, reply.result ≠ .ok token

theorem Plain.named {script : Script} (plain : Plain shards script) : Named Issues script where
  issued := fun _ number => ⟨number, rfl⟩
  scripted := fun shard reply member token said =>
    absurd said (plain.unnamed shard reply member token)
  apart := fun _ _ _ first second => by
    obtain ⟨number, rfl⟩ := first
    obtain ⟨other, same⟩ := second
    exact tokenText_shard same

theorem Plain.keep (plain : Plain shards before) (keeps : Keeps names only before after) :
    Plain shards after where
  description := keeps.description.trans plain.description
  undescribed := List.suffix_nil.mp (plain.undescribed ▸ keeps.descriptions)
  unnamed := fun shard reply member =>
    plain.unnamed shard reply ((keeps.iterators_suffix shard).subset member)

end Script

namespace Reader

variable {reader : Reader} {tracked : Tracked}

/-- The successors of a shard that has been read to its end are not tracked yet. -/
theorem Ordered.successors_entries (ordered : Ordered shards reader) (indexed : reader.Indexed)
    (distinct : (shards.map Shard.id).Nodup) (acyclic : (Lineage.ofShards shards).Acyclic)
    (member : tracked ∈ reader.shards) (unfinished : tracked.phase ≠ .done) :
    (reader.successors tracked.id shards).entries =
      (Assignments.afterEnd (.ofShards shards) tracked.id reader.checkpoint).entries := by
  refine List.filter_eq_self.mpr fun entry chosen => ?_
  have untracked := ordered.untracked_below indexed member unfinished
    (ordered.below_of_succeeded distinct acyclic member chosen)
  rw [Bool.not_eq_true', ← Bool.not_eq_true, indexed.mem_trackedShards]
  exact untracked

end Reader

namespace Session

/-- The reader of the session knows the one list of shards. -/
structure Steady (shards : List Shard) (settings : ReaderSettings) (session : Session Script) :
    Prop where
  regular : session.Regular Issues
  plain : session.world.service.Plain shards
  fresh : session.reader.initialized = false → session.reader = .ofSettings settings
  ordered : Reader.Ordered shards session.reader
  saved : ∀ id, id ∉ session.reader.ids →
    session.reader.checkpoint.get? id = settings.checkpoint.get? id

namespace Steady

variable {session : Session Script} {tracked : Tracked} {outcome : Outcome}
  {world : World Script}

/-- A visit leaves its shard undone and brings no others, or it brings all the successors. -/
theorem outcome_cases (steady : session.Steady shards settings)
    (steps : session.reader.Steps service tracked session.world outcome world)
    (visits : Visits names session.reader tracked session.world (.ok outcome) world) :
    (outcome.transition.entries = [] ∧ ∀ resume,
        ((tracked.enter (outcome.transition.phase? resume)).phase = .done ↔
          tracked.phase = .done)) ∨
      tracked.phase = .exhausted ∧ outcome = .bare tracked.id
        (.successorsKnown (session.reader.successors tracked.id shards)) := by
  rcases steps.quiet_or_described with quiet | ⟨_, ended, _, _⟩
  · exact .inl quiet
  · have known := (visits.known ended steady.plain.undescribed).1
    rw [steady.plain.description] at known
    exact .inr ⟨ended, Except.ok.inj known⟩

/-- A reader that tracks a shard is initialized. -/
theorem ready (steady : session.Steady shards settings)
    (member : tracked ∈ session.reader.shards) : session.reader.initialized = true := by
  by_contra unready
  rw [steady.fresh (Bool.not_eq_true _ ▸ unready)] at member
  exact absurd member List.not_mem_nil

/-- An applied outcome leaves the reader in order, and the shards that are not tracked alone. -/
theorem apply (steady : session.Steady shards settings)
    (distinct : (shards.map Shard.id).Nodup) (acyclic : (Lineage.ofShards shards).Acyclic)
    (member : tracked ∈ session.reader.shards)
    (steps : session.reader.Steps service tracked session.world outcome world)
    (visits : Visits names session.reader tracked session.world (.ok outcome) world) :
    Reader.Ordered shards (session.reader.apply outcome).2 ∧
      ∀ id, id ∉ (session.reader.apply outcome).2.ids →
        (session.reader.apply outcome).2.checkpoint.get? id = settings.checkpoint.get? id := by
  have indexed := steady.regular.indexed
  have follows := Reader.follows_apply indexed member steps.shard
  refine ⟨?_, fun id untracked => ?_⟩
  · rcases steady.outcome_cases steps visits with ⟨none, same⟩ | ⟨ended, rfl⟩
    · rw [none] at follows
      have rests := follows.rests indexed member (same _)
      exact steady.ordered.congr rests.ids rests.done
    · exact steady.ordered.succeed indexed distinct acyclic member ended follows
  · rw [follows.checkpoint]
    exact steady.saved id fun before => untracked (follows.ids_prefix.subset before)

/-- The one list of shards is described, and nothing of the script is used up. -/
theorem described (steady : session.Steady shards settings) {plan : RetryPlan}
    {answer : Except RetryFailure (List Shard)}
    (describes : Describes plan session.reader.settings.stream session.world answer world) :
    answer = .ok shards ∧ ∀ reports, (world.reportAll reports).service = session.world.service := by
  obtain ⟨answered, same⟩ := describes.unscripted steady.plain.undescribed
  rw [steady.plain.description] at answered
  exact ⟨answered, fun reports => (World.reportAll_service _ reports).trans same⟩

/-- A record that is handed out changes the offset of a tracked shard only. -/
theorem handOut (steady : session.Steady shards settings) {delivery : Delivery}
    (waits : delivery ∈ session.pass.buffer) :
    session.reader.initialized = true ∧
      Reader.Ordered shards (session.reader.handOut delivery) ∧
      ∀ id, id ∉ (session.reader.handOut delivery).ids →
        (session.reader.handOut delivery).checkpoint.get? id = settings.checkpoint.get? id := by
  obtain ⟨tracked, member, _, own⟩ := steady.regular.held.owner waits
  have known := own delivery waits
  refine ⟨steady.ready member, steady.ordered.congr rfl fun _ => Iff.rfl, fun id untracked => ?_⟩
  refine (Checkpoint.get?_record _ _ _ _).trans ?_
  rw [if_neg]
  · exact steady.saved id untracked
  · rintro rfl
    exact untracked (known ▸ List.mem_map_of_mem member)

/-- A turn leaves a steady session steady. -/
theorem advance (steady : session.Steady shards settings)
    (distinct : (shards.map Shard.id).Nodup) (acyclic : (Lineage.ofShards shards).Acyclic) :
    (session.advance service).2.Steady shards settings := by
  have regular := steady.regular.advance
  have advances := steady.regular.advances
  have indexed := steady.regular.indexed
  generalize (session.advance service).2 = later at advances regular
  generalize (session.advance service).1 = progress at advances
  cases advances with
  | @handsOut delivery rest held =>
      have waits : delivery ∈ session.pass.buffer := held ▸ List.mem_cons_self
      obtain ⟨ready, ordered, saved⟩ := steady.handOut waits
      exact ⟨regular, steady.plain, fun unready => absurd ready (ne_true_of_eq_false unready),
        ordered, saved⟩
  | stays _ _ => exact steady
  | enters _ _ _ ready =>
      exact ⟨regular, steady.plain, fun unready => absurd ready (ne_true_of_eq_false unready),
        steady.ordered, steady.saved⟩
  | @prepares found after reports _ _ _ fresh describes =>
      obtain ⟨answered, same⟩ := steady.described describes
      cases answered
      have untracked : session.reader.shards = [] := by
        rw [steady.fresh fresh]
        rfl
      have tracks := indexed.track (Assignments.atStart (.ofShards shards)
        session.reader.checkpoint session.reader.settings.policy)
      refine ⟨regular, ?_, fun unready => ?_, .opening indexed distinct untracked,
        fun id _ => ?_⟩
      · rw [enterWith, same]
        exact steady.plain
      · cases unready
      · have kept : (session.reader.opening shards).checkpoint = session.reader.checkpoint := by
          rw [Reader.opening, tracks.rest]
        rw [enterWith, kept]
        exact steady.saved id (by rw [Reader.ids, untracked]; exact List.not_mem_nil)
  | unprepared _ _ _ _ describes _ => cases (steady.described describes).1
  | unpreparable _ _ _ _ describes _ => cases (steady.described describes).1
  | drained _ _ _ _ =>
      exact ⟨regular, steady.plain, steady.fresh, steady.ordered, steady.saved⟩
  | @visits tracked rest outcome after _ _ _ queued member steps visits =>
      obtain ⟨ordered, saved⟩ := steady.apply distinct acyclic member steps visits
      have keeps := visits.keeps
      rw [← World.reportAll_service after] at keeps
      refine ⟨regular, steady.plain.keep keeps, fun unready => ?_, ordered, saved⟩
      have follows := Reader.follows_apply indexed member steps.shard
      exact absurd (follows.initialized.trans (steady.ready member))
        (ne_true_of_eq_false unready)
  | fails _ _ _ _ member visits =>
      exact ⟨regular, steady.plain.keep visits.keeps, steady.fresh, steady.ordered, steady.saved⟩

end Steady

end Session

end ShardedStream
