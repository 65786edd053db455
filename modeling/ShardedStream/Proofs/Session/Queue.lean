import ShardedStream.Proofs.Reader.Effect
import ShardedStream.Proofs.Session.Turn

/-!
The queue of a pass.
A pass visits the shards that were active when it opened, and those that its visits bring, so a
shard that is to be visited is tracked.
-/

namespace ShardedStream
namespace Session

variable {σ : Type} {service : Service σ} {session : Session σ}

/-- The active shards are tracked. -/
theorem mem_ids_of_active {reader : Reader} {id : ShardId} (active : id ∈ reader.activeShards) :
    id ∈ reader.ids := by
  obtain ⟨tracked, member, rfl⟩ := List.mem_map.mp active
  exact List.mem_map_of_mem (List.mem_of_mem_filter member)

/-- The shards to visit are tracked. -/
def Queued (session : Session σ) : Prop :=
  ∀ id ∈ session.pass.queue, id ∈ session.reader.ids

/-- The shards to visit after a visit are tracked. -/
theorem Queued.absorb {outcome : Outcome} {tracked : Tracked} (queued : session.Queued)
    (indexed : session.reader.Indexed) (member : tracked ∈ session.reader.shards)
    (own : outcome.shard = tracked.id) : (session.absorb tracked.id outcome).Queued := by
  intro id here
  simp only [Session.absorb] at here ⊢
  rw [Reader.ids_apply indexed member own]
  rcases List.mem_append.mp here with before | new
  · refine List.mem_append_left _ ?_
    split at before
    · rcases List.mem_cons.mp before with rfl | old
      · exact List.mem_map_of_mem member
      · exact queued id old
    · exact queued id before
  · exact List.mem_append_right _ new

theorem Queued.enter (queued : session.Queued) : (session.enter service).2.Queued := by
  unfold Session.enter
  dsimp only
  split
  · exact queued
  · exact fun _ => mem_ids_of_active
  · exact queued
  · exact queued

theorem Queued.visit (queued : session.Queued) (indexed : session.reader.Indexed)
    (shard : ShardId) : (session.visit service shard).2.Queued := by
  unfold Session.visit
  split
  · exact queued
  · rename_i outcome world asked
    obtain ⟨tracked, member, rfl, steps⟩ := Reader.step_steps indexed asked
    have before : Queued { session with world } := queued
    exact before.absorb indexed member steps.shard
  · exact queued

/-- A turn leaves the shards to visit tracked. -/
theorem Queued.advance (queued : session.Queued) (indexed : session.reader.Indexed) :
    (session.advance service).2.Queued := by
  unfold Session.advance
  split
  · exact queued
  · split
    · exact queued
    · split
      · exact queued.enter
      · split
        · exact queued
        · rename_i shard rest filled
          have others : Queued { session with
              pass := { session.pass with queue := rest } } := fun id here =>
            queued id (filled ▸ List.mem_cons_of_mem _ here)
          exact others.visit indexed shard

end Session
end ShardedStream
