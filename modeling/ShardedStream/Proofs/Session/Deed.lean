import ShardedStream.Pass
import ShardedStream.Proofs.Reader.Watch

/-!
What the caller of a reader does.
Whatever it is, the reader's side of it is fixed by the time, the signal and the service: the record
so far, the observer and the way of monitoring make no difference to it.
-/

namespace ShardedStream

variable {σ α β : Type}

/-- This is what a caller can do next with a reader. -/
inductive Deed where
  /-- The next record is asked for, in at most so many turns, and within so many milliseconds. -/
  | next (fuel : Nat) (patience : Option Nat)
  /-- The pass ends wherever it is, and another one opens. -/
  | close
  | step (shard : ShardId)
  | apply (outcome : Outcome)
  | prune (shard : ShardId)
  /-- Time passes, and the sender of the signal does something. -/
  | surround (clock : Clock) (signal : Signal)

/-- What the caller gets for it. -/
inductive Finding where
  | answered (answer : Option (Except ReaderError (Option Delivery)))
  | stepped (result : Option (Except ReaderError Outcome))
  | applied (effect : Effect)
  | pruned (entry : Option SequenceNumber)
  | nothing

namespace Session

def perform (service : Service σ) (session : Session σ) : Deed → Finding × Session σ
  | .next fuel patience =>
    let answered := session.nextWithin service fuel patience
    (.answered answered.1, answered.2)
  | .close => (.nothing, start session.close.1 session.close.2)
  | .step shard =>
    let stepped := session.reader.stepIn service shard session.world
    (.stepped stepped.1, { session with world := stepped.2 })
  | .apply outcome =>
    let applied := session.reader.applyIn outcome session.world
    (.applied applied.1, { session with reader := applied.2.1, world := applied.2.2 })
  | .prune shard =>
    let pruned := session.reader.prune shard
    (.pruned pruned.1, { session with reader := pruned.2 })
  | .surround clock signal =>
    (.nothing, { session with world := { session.world with clock, signal } })

/-- What is left behind with one reader in one world is left behind with all readers that are only
watched otherwise, in all worlds that share the time, the signal and the service. -/
def LeavesWake (session : Session σ) (run : Session σ → α × Session σ) : Prop :=
  ∃ (value : α) (reader : Reader) (pass : Pass) (wake : Wake σ),
    ∀ monitoring other, session.world.Shares other →
      run ⟨session.reader.watchedBy monitoring, session.pass, other⟩ =
        (value, ⟨reader.watchedBy monitoring, pass, other.leave wake⟩)

variable {session : Session σ} {service : Service σ}

/-- What leaves the world alone leaves nothing behind. -/
theorem leaves_of_still {run : Session σ → α × Session σ} (value : α) (reader : Reader)
    (pass : Pass)
    (ran : ∀ monitoring other, session.world.Shares other →
      run ⟨session.reader.watchedBy monitoring, session.pass, other⟩ =
        (value, ⟨reader.watchedBy monitoring, pass, other⟩)) : session.LeavesWake run :=
  ⟨value, reader, pass, session.world.still, fun monitoring other shares => by
    rw [ran monitoring other shares, World.leave_still shares]⟩

/-- A run that goes on as another one after a stretch of time leaves both wakes behind. -/
theorem LeavesWake.after {run rest : Session σ → α × Session σ} {reader : Reader} {pass : Pass}
    {wake : Wake σ} (leaves : LeavesWake ⟨reader, pass, session.world.leave wake⟩ rest)
    (same : ∀ monitoring other, session.world.Shares other →
      run ⟨session.reader.watchedBy monitoring, session.pass, other⟩ =
        rest ⟨reader.watchedBy monitoring, pass, other.leave wake⟩) : session.LeavesWake run := by
  obtain ⟨value, later, lastPass, second, ran⟩ := leaves
  refine ⟨value, later, lastPass, wake.followedBy second, fun monitoring other shares => ?_⟩
  rw [same monitoring other shares, ← World.leave_leave]
  exact ran monitoring _ (World.leave_shares shares _)

theorem fail_leaves (session : Session σ) (error : ReaderError) :
    session.LeavesWake fun other => other.fail error := by
  refine ⟨.failed error, session.reader, { session.pass with finished := true },
    { session.world.still with notices := [.passAborted error] }, ?_⟩
  rintro monitoring ⟨clock, signal, served, monitor, exchanges, notices⟩ ⟨rfl, rfl, rfl, _⟩
  simp [fail, World.notify, World.leave, World.still, Monitor.emitAll]

theorem enter_leaves (service : Service σ) (session : Session σ) :
    session.LeavesWake fun other => other.enter service := by
  obtain ⟨answer, wake, ran⟩ :=
    World.converse_leaves service session.plan session.reader.prepare session.world
  dsimp only at ran
  have entered : ∀ monitoring other, session.world.Shares other →
      enter service ⟨session.reader.watchedBy monitoring, session.pass, other⟩ =
        match answer with
        | none => (.unanswered, ⟨session.reader.watchedBy monitoring,
            { session.pass with started := true }, other.leave wake⟩)
        | some (.ok (some reader)) => (.moved, ⟨reader.watchedBy monitoring,
            { session.pass with started := true, queue := reader.activeShards },
            other.leave wake⟩)
        | some (.ok none) => (.moved, ⟨session.reader.watchedBy monitoring,
            { session.pass with started := true, finished := true }, other.leave wake⟩)
        | some (.error error) => fail ⟨session.reader.watchedBy monitoring,
            { session.pass with started := true }, other.leave wake⟩ error := by
    intro monitoring other shares
    have prepared := ran other shares
    simp only [plan] at prepared
    simp only [enter, plan, Reader.watchedBy_prepare, Reader.watchedBy_plan,
      World.converse_andThen_done, prepared]
    rcases answer with _ | error | _ | reader <;> rfl
  rcases answer with _ | error | _ | reader
  · exact ⟨.unanswered, session.reader, _, wake, entered⟩
  · exact (fail_leaves _ error).after entered
  · exact ⟨.moved, session.reader, _, wake, entered⟩
  · exact ⟨.moved, reader, _, wake, entered⟩

theorem absorb_leaves (session : Session σ) (shard : ShardId) (outcome : Outcome) :
    session.LeavesWake fun other => (Progress.moved, other.absorb shard outcome) := by
  obtain ⟨_, wake, reported⟩ :=
    World.reportAll_leaves session.world (session.reader.apply outcome).1.reports
  refine ⟨.moved, (session.reader.apply outcome).2, (session.absorb shard outcome).pass, wake,
    fun monitoring other shares => ?_⟩
  have left := congrArg Prod.snd (reported other shares)
  simp only [absorb, Reader.watchedBy_apply] at left ⊢
  rw [left]

theorem visit_leaves (service : Service σ) (session : Session σ) (shard : ShardId) :
    session.LeavesWake fun other => other.visit service shard := by
  obtain ⟨answer, wake, ran⟩ :=
    World.converse_leaves service session.plan (session.reader.step shard) session.world
  dsimp only at ran
  have visited : ∀ monitoring other, session.world.Shares other →
      visit service ⟨session.reader.watchedBy monitoring, session.pass, other⟩ shard =
        match answer with
        | none => (.unanswered, ⟨session.reader.watchedBy monitoring, session.pass,
            other.leave wake⟩)
        | some (.ok outcome) => (.moved, absorb ⟨session.reader.watchedBy monitoring,
            session.pass, other.leave wake⟩ shard outcome)
        | some (.error error) => fail ⟨session.reader.watchedBy monitoring, session.pass,
            other.leave wake⟩ error := by
    intro monitoring other shares
    have stepped := ran other shares
    simp only [plan] at stepped
    simp only [visit, plan, Reader.watchedBy_step, Reader.watchedBy_plan, stepped]
    rcases answer with _ | error | outcome <;> rfl
  rcases answer with _ | error | outcome
  · exact ⟨.unanswered, session.reader, session.pass, wake, visited⟩
  · exact (fail_leaves _ error).after visited
  · exact (absorb_leaves _ shard outcome).after visited

/-- A turn leaves the same behind however it is watched. -/
theorem advance_leaves (service : Service σ) (session : Session σ) :
    session.LeavesWake fun other => other.advance service := by
  obtain ⟨reader, ⟨queue, buffer, started, finished⟩, world⟩ := session
  cases buffer with
  | cons delivery rest =>
      exact leaves_of_still (.delivered delivery) (reader.handOut delivery)
        ⟨queue, rest, started, finished⟩ fun _ _ _ => rfl
  | nil =>
      cases finished with
      | true => exact leaves_of_still .ended reader ⟨queue, [], started, true⟩ fun _ _ _ => rfl
      | false =>
          cases started with
          | false => exact enter_leaves service ⟨reader, ⟨queue, [], false, false⟩, world⟩
          | true =>
              cases queue with
              | nil =>
                  exact leaves_of_still .ended reader ⟨[], [], true, true⟩ fun _ _ _ => rfl
              | cons shard rest =>
                  exact visit_leaves service ⟨reader, ⟨rest, [], true, false⟩, world⟩ shard

theorem next_leaves (service : Service σ) (fuel : Nat) (session : Session σ) :
    session.LeavesWake fun other => other.next service fuel := by
  induction fuel generalizing session with
  | zero => exact leaves_of_still none session.reader session.pass fun _ _ _ => rfl
  | succ fuel inductionHypothesis =>
      obtain ⟨progress, reader, pass, wake, ran⟩ := advance_leaves service session
      dsimp only at ran
      have one : ∀ monitoring other, session.world.Shares other →
          next service (fuel + 1) ⟨session.reader.watchedBy monitoring, session.pass, other⟩ =
            match progress with
            | .delivered delivery => (some (.ok (some delivery)),
                ⟨reader.watchedBy monitoring, pass, other.leave wake⟩)
            | .ended => (some (.ok none), ⟨reader.watchedBy monitoring, pass, other.leave wake⟩)
            | .failed error => (some (.error error),
                ⟨reader.watchedBy monitoring, pass, other.leave wake⟩)
            | .unanswered => (none, ⟨reader.watchedBy monitoring, pass, other.leave wake⟩)
            | .moved => next service fuel
                ⟨reader.watchedBy monitoring, pass, other.leave wake⟩ := by
        intro monitoring other shares
        rw [next, ran monitoring other shares]
        cases progress <;> rfl
      cases progress with
      | delivered delivery => exact ⟨_, reader, pass, wake, one⟩
      | ended => exact ⟨_, reader, pass, wake, one⟩
      | failed error => exact ⟨_, reader, pass, wake, one⟩
      | unanswered => exact ⟨_, reader, pass, wake, one⟩
      | moved => exact (inductionHypothesis ⟨reader, pass, session.world.leave wake⟩).after one

theorem nextWithin_leaves (service : Service σ) (fuel : Nat) (patience : Option Nat)
    (session : Session σ) :
    session.LeavesWake fun other => other.nextWithin service fuel patience := by
  obtain ⟨answer, reader, pass, wake, ran⟩ := next_leaves service fuel
    { session with world := session.world.limitTo patience }
  refine ⟨answer, reader, pass, { wake with clock := { wake.clock with limit := none } }, ?_⟩
  rintro monitoring other shares
  have limited : (session.world.limitTo patience).Shares (other.limitTo patience) := by
    refine ⟨?_, shares.signal, shares.service, shares.count⟩
    simp only [World.limitTo, shares.clock]
  have same := ran monitoring _ limited
  dsimp only at same
  simp only [nextWithin, same]
  rfl

theorem close_leaves (session : Session σ) :
    session.LeavesWake fun other => (Finding.nothing, start other.close.1 other.close.2) := by
  obtain ⟨reader, ⟨queue, buffer, started, finished⟩, world⟩ := session
  cases buffer with
  | nil => exact leaves_of_still .nothing reader .fresh fun _ _ _ => rfl
  | cons delivery rest =>
      refine leaves_of_still .nothing (reader.restartAt delivery.shard
        (.atSequence delivery.record.sequence)) .fresh fun monitoring other _ => ?_
      simp only [close, List.head?_cons, Reader.watchedBy_restartAt]
      rfl

/-- Whatever its caller does, a reader leaves the same behind however it is watched. -/
theorem perform_leaves (service : Service σ) (deed : Deed) (session : Session σ) :
    session.LeavesWake fun other => other.perform service deed := by
  cases deed with
  | next fuel patience =>
      obtain ⟨answer, reader, pass, wake, ran⟩ :=
        nextWithin_leaves service fuel patience session
      dsimp only at ran
      refine ⟨.answered answer, reader, pass, wake, fun monitoring other shares => ?_⟩
      simp only [perform, ran monitoring other shares]
  | close => exact close_leaves session
  | step shard =>
      obtain ⟨answer, wake, ran⟩ :=
        World.converse_leaves service session.plan (session.reader.step shard) session.world
      refine ⟨.stepped answer, session.reader, session.pass, wake,
        fun monitoring other shares => ?_⟩
      have stepped := ran other shares
      simp only [plan] at stepped
      simp only [perform, Reader.stepIn, Reader.watchedBy_step, Reader.watchedBy_plan, stepped]
  | apply outcome =>
      obtain ⟨_, wake, reported⟩ :=
        World.reportAll_leaves session.world (session.reader.apply outcome).1.reports
      refine ⟨.applied (session.reader.apply outcome).1, (session.reader.apply outcome).2,
        session.pass, wake, fun monitoring other shares => ?_⟩
      have left := congrArg Prod.snd (reported other shares)
      simp only at left
      simp only [perform, Reader.applyIn, Reader.watchedBy_apply, left]
  | prune shard =>
      exact leaves_of_still (.pruned (session.reader.prune shard).1)
        (session.reader.prune shard).2 session.pass fun monitoring other _ => by
          simp only [perform, Reader.watchedBy_prune]
  | surround clock signal =>
      refine ⟨.nothing, session.reader, session.pass, ⟨clock, signal, session.world.service,
        [], [], []⟩, ?_⟩
      rintro monitoring ⟨otherClock, otherSignal, served, monitor, exchanges, notices⟩
        ⟨rfl, rfl, rfl, _⟩
      simp [perform, World.leave, Monitor.emitAll]

end Session
end ShardedStream
