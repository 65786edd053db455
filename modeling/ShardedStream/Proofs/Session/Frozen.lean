import ShardedStream.Proofs.Reader.Answer
import ShardedStream.Proofs.Session.Queue
import ShardedStream.Proofs.Session.Watched

/-!
Shutdown freezes a reader without damage.
While the signal is up no call starts, and what a pass makes of that leaves every phase as it is. So
passes under the signal might as well not have been run.
-/

namespace ShardedStream

variable {σ : Type} {service : Service σ} {plan : Nat → RetryPlan}

namespace World

/-- The signal is up. -/
def Stopped (world : World σ) : Prop := world.signal.raisedAt world.clock.now = true

/-- Nothing has happened between two moments that the service or its callers could notice. -/
structure Rests (world later : World σ) : Prop where
  clock : later.clock = world.clock
  signal : later.signal = world.signal
  service : later.service = world.service
  calls : later.calls = world.calls

variable {world later : World σ}

theorem Rests.refl (world : World σ) : world.Rests world := ⟨rfl, rfl, rfl, rfl⟩

theorem Rests.trans {between : World σ} (first : world.Rests between)
    (second : between.Rests later) : world.Rests later :=
  ⟨second.clock.trans first.clock, second.signal.trans first.signal,
    second.service.trans first.service, second.calls.trans first.calls⟩

theorem Rests.stopped (rests : world.Rests later) (stopped : world.Stopped) : later.Stopped := by
  rw [Stopped, rests.clock, rests.signal]
  exact stopped

theorem rests_report (world : World σ) (report : Report) : world.Rests (world.report report) := by
  cases report <;> exact ⟨rfl, rfl, rfl, rfl⟩

theorem rests_reportAll (world : World σ) (reports : List Report) :
    world.Rests (world.reportAll reports) := by
  induction reports generalizing world with
  | nil => exact .refl world
  | cons report reports inductionHypothesis =>
      exact (rests_report world report).trans (inductionHypothesis _)

/-- Under the signal a question is interrupted before its first attempt. -/
theorem settle_stopped (service : Service σ) (plan : Nat → RetryPlan) (request : Request)
    (stopped : world.Stopped) :
    ∃ later, world.settle service plan request =
        (some (request.settle (.error .interrupted)), later) ∧ world.Rests later := by
  have interrupted : retry (plan world.calls.length) world.signal (service.call request) 0
      world.clock world.service = .stop (some (.error .interrupted)) 0 world.clock world.service := by
    have raised : world.signal.raisedAt world.clock.now = true := stopped
    rw [retry, show attemptLimit - 0 = 4294967295 + 1 from rfl, retryUntil, if_pos raised]
  rw [settle, interrupted]
  refine ⟨_, rfl, rfl, rfl, rfl, ?_⟩
  simp [notify, calls, Retried.stop, Exchange.calls]

end World

namespace Reader

variable {reader : Reader} {world : World σ}

/-- Under the signal a reader is prepared only if it was. -/
theorem prepare_stopped (service : Service σ) (plan : Nat → RetryPlan) (reader : Reader)
    (stopped : world.Stopped) :
    ∃ later, world.converse service plan reader.prepare =
        (some (.ok (if reader.initialized then some reader else none)), later) ∧
      world.Rests later := by
  cases ready : reader.initialized with
  | true =>
      refine ⟨world, ?_, .refl world⟩
      rw [prepare, ready]
      rfl
  | false =>
      obtain ⟨later, asked, rests⟩ := World.settle_stopped service plan
        (.listShards reader.settings.stream) stopped
      exact ⟨_, converse_prepare ready asked, rests.trans (World.rests_reportAll _ _)⟩

/-- The outcome leaves the reader as it is, and brings nothing into the pass. -/
structure Ignores (reader : Reader) (outcome : Outcome) : Prop where
  same : (reader.apply outcome).2 = reader
  deliveries : (reader.apply outcome).1.deliveries = []
  newShards : (reader.apply outcome).1.newShards = []
  revisit : (reader.apply outcome).1.revisit = false

/-- A transition without a phase is ignored, unless it brings successors. -/
theorem ignores_bare (indexed : reader.Indexed) {tracked : Tracked}
    (member : tracked ∈ reader.shards) {transition : Transition}
    (follows : ∀ resume, ∃ reports,
      reader.follow tracked.id resume transition = (⟨[], [], false, reports⟩, reader)) :
    reader.Ignores (.bare tracked.id transition) := by
  obtain ⟨reports, followed⟩ := follows (tracked.resume reader.checkpoint)
  have applied := apply_eq indexed member (rfl : (Outcome.bare tracked.id transition).shard = _)
  have unnoted : reader.noteLag (.bare tracked.id transition) = reader := rfl
  simp only [unnoted] at applied
  rw [show (Outcome.bare tracked.id transition).transition = transition from rfl, followed]
    at applied
  exact ⟨by rw [applied], by rw [applied]; rfl, by rw [applied], by rw [applied]⟩

/-- Under the signal a step comes to something that is ignored, in whatever phase its shard is. -/
theorem step_stopped (service : Service σ) (plan : Nat → RetryPlan) (indexed : reader.Indexed)
    {tracked : Tracked} (member : tracked ∈ reader.shards) (stopped : world.Stopped) :
    ∃ outcome later, world.converse service plan (reader.step tracked.id) =
        (some (.ok outcome), later) ∧ world.Rests later ∧ reader.Ignores outcome := by
  have ignored : ∀ {transition : Transition},
      (∀ resume, ∃ reports,
        reader.follow tracked.id resume transition = (⟨[], [], false, reports⟩, reader)) →
      reader.Ignores (.bare tracked.id transition) := ignores_bare indexed member
  rw [step, indexed.tracked?_eq_some_iff.mpr ⟨member, rfl⟩]
  simp only
  cases tracked.phase with
  | waiting position =>
      obtain ⟨later, asked, rests⟩ := World.settle_stopped service plan
        (.openIterator reader.settings.stream tracked.id position) stopped
      exact ⟨_, later, converse_unopened asked, rests, ignored fun _ => ⟨_, rfl⟩⟩
  | reading token =>
      obtain ⟨later, asked, rests⟩ := World.settle_stopped service plan
        (.readRecords token reader.settings.batchSize) stopped
      exact ⟨_, later, converse_readFrom asked, rests, ignored fun _ => ⟨_, rfl⟩⟩
  | exhausted =>
      obtain ⟨later, asked, rests⟩ := World.settle_stopped service plan
        (.listShards reader.settings.stream) stopped
      exact ⟨_, later, converse_lookUpSuccessors asked, rests, ignored fun _ => ⟨_, rfl⟩⟩
  | done => exact ⟨_, world, rfl, .refl world, ignored fun _ => ⟨_, rfl⟩⟩

end Reader

namespace Session

/-- The turns that a pass under the signal has left, its end included. -/
def idleTurns (session : Session σ) : Nat :=
  if session.pass.finished then 1
  else if session.pass.started then session.pass.queue.length + 1
  else session.reader.activeShards.length + 2

/-- A pass under the signal, with the reader, the service and the calls that it found. -/
structure Frozen (found : Reader) (world : World σ) (session : Session σ) : Prop where
  reader : session.reader = found
  buffer : session.pass.buffer = []
  queued : session.Queued
  queue : session.pass.queue.length ≤ found.activeShards.length
  service : session.world.service = world.service
  calls : session.world.calls = world.calls
  stopped : session.world.Stopped

variable {found : Reader} {world : World σ} {session : Session σ}

theorem frozen_start {later : World σ} (served : later.service = world.service)
    (called : later.calls = world.calls) (stopped : later.Stopped) :
    Frozen found world (start found later) where
  reader := rfl
  buffer := rfl
  queued := fun _ member => absurd member List.not_mem_nil
  queue := Nat.zero_le _
  service := served
  calls := called
  stopped := stopped

/-- What leaves the reader alone and brings no record leaves a frozen pass frozen. -/
theorem Frozen.rests (frozen : session.Frozen found world) {later : Session σ}
    (same : later.reader = session.reader) (empty : later.pass.buffer = [])
    (queued : later.Queued) (queue : later.pass.queue.length ≤ found.activeShards.length)
    (rests : session.world.Rests later.world) : later.Frozen found world where
  reader := same.trans frozen.reader
  buffer := empty
  queued := queued
  queue := queue
  service := rests.service.trans frozen.service
  calls := rests.calls.trans frozen.calls
  stopped := rests.stopped frozen.stopped

/-- The pass opens on the shards that were there before, or not at all. -/
theorem Frozen.enter (frozen : session.Frozen found world) (service : Service σ)
    (fresh : session.pass.finished = false) (unstarted : session.pass.started = false) :
    (session.enter service).1 = .moved ∧ (session.enter service).2.Frozen found world ∧
      (session.enter service).2.idleTurns < session.idleTurns := by
  obtain ⟨later, prepared, rests⟩ :=
    session.reader.prepare_stopped service session.plan frozen.stopped
  simp only [plan] at prepared
  simp only [Session.enter, plan, prepared]
  cases ready : session.reader.initialized with
  | true =>
      simp only [if_true]
      refine ⟨trivial, frozen.rests rfl frozen.buffer (fun _ => mem_ids_of_active) ?_ rests, ?_⟩
      · simp [frozen.reader]
      · simp [idleTurns, fresh, unstarted]
  | false =>
      simp only [Bool.false_eq_true, if_false]
      refine ⟨trivial, frozen.rests rfl frozen.buffer frozen.queued frozen.queue rests, ?_⟩
      simp [idleTurns, fresh, unstarted]

/-- A visit takes its shard off the queue, and that is all. -/
theorem Frozen.visit (frozen : session.Frozen found world) (service : Service σ)
    (indexed : found.Indexed) (fresh : session.pass.finished = false)
    (started : session.pass.started = true)
    {shard : ShardId} {rest : List ShardId} (filled : session.pass.queue = shard :: rest) :
    let visited := visit service
      { session with pass := { session.pass with queue := rest } } shard
    visited.1 = .moved ∧ visited.2.Frozen found world ∧
      visited.2.idleTurns < session.idleTurns := by
  obtain ⟨tracked, member, rfl⟩ := List.mem_map.mp
    (frozen.queued shard (filled ▸ List.mem_cons_self))
  obtain ⟨outcome, later, stepped, rests, ignores⟩ := Reader.step_stopped service
    session.plan (frozen.reader ▸ indexed) member frozen.stopped
  simp only [plan] at stepped
  simp only [Session.visit, plan, stepped, absorb, ignores.same, ignores.deliveries,
    ignores.newShards, ignores.revisit]
  refine ⟨trivial, frozen.rests rfl ?_ ?_ ?_ (rests.trans (World.rests_reportAll _ _)), ?_⟩
  · simp [frozen.buffer]
  · intro id here
    exact frozen.queued id (filled ▸ List.mem_cons_of_mem _ (by simpa using here))
  · have bounded := frozen.queue
    rw [filled] at bounded
    simpa using Nat.le_of_succ_le bounded
  · simp [idleTurns, fresh, started, filled]

/-- A turn ends the pass or brings it nearer to its end. -/
theorem Frozen.advance (frozen : session.Frozen found world) (service : Service σ)
    (indexed : found.Indexed) :
    (session.advance service).2.Frozen found world ∧
      ((session.advance service).1 = .ended ∨
        (session.advance service).1 = .moved ∧
          (session.advance service).2.idleTurns < session.idleTurns) := by
  obtain ⟨reader, ⟨queue, buffer, started, finished⟩, now⟩ := session
  obtain rfl : buffer = [] := frozen.buffer
  cases finished with
  | true => exact ⟨frozen, .inl rfl⟩
  | false =>
      cases started with
      | false =>
          obtain ⟨moved, later, nearer⟩ := frozen.enter service rfl rfl
          exact ⟨later, .inr ⟨moved, nearer⟩⟩
      | true =>
          cases queue with
          | nil =>
              exact ⟨frozen.rests rfl rfl frozen.queued frozen.queue (.refl now), .inl rfl⟩
          | cons shard rest =>
              obtain ⟨moved, later, nearer⟩ :=
                frozen.visit service indexed rfl rfl rfl
              exact ⟨later, .inr ⟨moved, nearer⟩⟩

/-- Under the signal a pass returns nothing, in whatever turn it gets there. -/
theorem Frozen.next (frozen : session.Frozen found world) (service : Service σ)
    (indexed : found.Indexed) (fuel : Nat) :
    (session.next service fuel).2.Frozen found world ∧
      ((session.next service fuel).1 = some (.ok none) ∨
        fuel < session.idleTurns ∧ (session.next service fuel).1 = none) := by
  induction fuel generalizing session with
  | zero =>
      refine ⟨frozen, .inr ⟨?_, rfl⟩⟩
      unfold idleTurns
      split
      · exact Nat.one_pos
      · split <;> exact Nat.succ_pos _
  | succ fuel inductionHypothesis =>
      obtain ⟨later, progress⟩ := frozen.advance service indexed
      unfold Session.next
      generalize session.advance service = advanced at later progress
      obtain ⟨_, after⟩ := advanced
      rcases progress with rfl | ⟨rfl, nearer⟩
      · exact ⟨later, .inl rfl⟩
      · obtain ⟨kept, answer⟩ := inductionHypothesis later
        have counted : after.idleTurns < session.idleTurns := nearer
        rcases answer with finished | ⟨short, unanswered⟩
        · exact ⟨kept, .inl finished⟩
        · exact ⟨kept, .inr ⟨by omega, unanswered⟩⟩

/-- A pass has at most two turns beside its visits. -/
theorem Frozen.idleTurns_le (frozen : session.Frozen found world) :
    session.idleTurns ≤ found.activeShards.length + 2 := by
  have bounded := frozen.queue
  have same := frozen.reader
  unfold idleTurns
  split
  · omega
  · split
    · omega
    · rw [same]

end Session

/-- This is what callers do while the signal stays up: they run passes as far as they like, and
time passes. -/
def Deed.Frozen : Deed → Prop
  | .next _ _ => True
  | .close => True
  | .surround clock signal => signal.raisedAt clock.now = true
  | .step _ => False
  | .apply _ => False
  | .prune _ => False

instance : (deed : Deed) → Decidable deed.Frozen
  | .next _ _ => isTrue trivial
  | .close => isTrue trivial
  | .surround clock signal => inferInstanceAs (Decidable (signal.raisedAt clock.now = true))
  | .step _ => isFalse id
  | .apply _ => isFalse id
  | .prune _ => isFalse id

/-- Nothing is found, be it at the end of a pass or before so many turns have been made. -/
def Deed.Idles (enough : Nat) (deed : Deed) (finding : Finding) : Prop :=
  match deed with
  | .next fuel _ => finding = .answered (some (.ok none)) ∨
      fuel < enough ∧ finding = .answered none
  | _ => finding = .nothing

namespace Session

variable {found : Reader} {world : World σ} {session : Session σ}

/-- Under the signal whatever a caller does finds nothing and moves nothing. -/
theorem Frozen.perform (frozen : session.Frozen found world) (service : Service σ)
    (indexed : found.Indexed) {deed : Deed} (calm : deed.Frozen) :
    (session.perform service deed).2.Frozen found world ∧
      deed.Idles (found.activeShards.length + 2) (session.perform service deed).1 := by
  cases deed with
  | next fuel patience =>
      have limited : Frozen found world
          { session with world := session.world.limitTo patience } :=
        ⟨frozen.reader, frozen.buffer, frozen.queued, frozen.queue, frozen.service,
          frozen.calls, frozen.stopped⟩
      obtain ⟨later, answer⟩ := limited.next service indexed fuel
      refine ⟨⟨later.reader, later.buffer, later.queued, later.queue, later.service,
        later.calls, later.stopped⟩, ?_⟩
      rcases answer with finished | ⟨short, unanswered⟩
      · exact .inl (congrArg Finding.answered finished)
      · exact .inr ⟨Nat.lt_of_lt_of_le short limited.idleTurns_le,
          congrArg Finding.answered unanswered⟩
  | close =>
      have closed : session.close = (found, session.world) := by
        rw [close, frozen.buffer, ← frozen.reader]
        rfl
      simp only [Session.perform, closed]
      exact ⟨frozen_start frozen.service frozen.calls frozen.stopped, rfl⟩
  | surround clock signal =>
      exact ⟨⟨frozen.reader, frozen.buffer, frozen.queued, frozen.queue, frozen.service,
        frozen.calls, calm⟩, rfl⟩
  | step shard => exact calm.elim
  | apply outcome => exact calm.elim
  | prune shard => exact calm.elim

theorem Frozen.watch (frozen : session.Frozen found world) (service : Service σ)
    (indexed : found.Indexed) (watched : List (ReceiverPlan × Deed))
    (calm : ∀ entry ∈ watched, entry.2.Frozen) :
    (session.watch service watched).2.Frozen found world ∧
      List.Forall₂ (fun entry finding => entry.2.Idles (found.activeShards.length + 2) finding)
        watched (session.watch service watched).1 := by
  induction watched generalizing session with
  | nil => exact ⟨frozen, .nil⟩
  | cons entry watched inductionHypothesis =>
      obtain ⟨receiver, deed⟩ := entry
      have attended : Frozen found world
          { session with world := session.world.attend receiver } :=
        ⟨frozen.reader, frozen.buffer, frozen.queued, frozen.queue, frozen.service,
          frozen.calls, frozen.stopped⟩
      obtain ⟨performed, idles⟩ := attended.perform service indexed
        (calm _ List.mem_cons_self)
      generalize perform_eq : Session.perform service _ deed = ran at performed idles
      have dismissed : Frozen found world { ran.2 with world := ran.2.world.dismiss } :=
        ⟨performed.reader, performed.buffer, performed.queued, performed.queue,
          performed.service, performed.calls, performed.stopped⟩
      obtain ⟨last, idle⟩ := inductionHypothesis
        dismissed fun entry member => calm entry (List.mem_cons_of_mem _ member)
      rw [Session.watch, perform_eq]
      exact ⟨last, .cons idles idle⟩

/--
Shutdown freezes a reader without damage. Whatever passes are run while the signal is up, none
returns a record or an error, the service is not called, and the reader stays as it is. After
that the caller finds what it would have found without those passes, with the same calls.
-/
theorem frozen_alike {settings : ReaderSettings} {reader : Reader}
    (reached : Reader.Reached settings reader) (service : Service σ) (world : World σ)
    (stopped : world.Stopped) (watched : List (ReceiverPlan × Deed))
    (calm : ∀ entry ∈ watched, entry.2.Frozen) :
    let left := (start reader world).watch service watched
    List.Forall₂ (fun entry finding => entry.2.Idles (reader.activeShards.length + 2) finding)
        watched left.1 ∧
      left.2.close.1 = reader ∧ left.2.close.2.service = world.service ∧
      left.2.close.2.calls = world.calls ∧
      ∀ receiver clock signal later,
        let resumed := (start left.2.close.1 left.2.close.2).watch service
          ((receiver, .surround clock signal) :: later)
        let unbroken := (start reader world).watch service
          ((receiver, .surround clock signal) :: later)
        resumed.1 = unbroken.1 ∧ resumed.2.reader = unbroken.2.reader ∧
          resumed.2.pass = unbroken.2.pass ∧
          resumed.2.world.calls = unbroken.2.world.calls ∧
          resumed.2.world.service = unbroken.2.world.service ∧
          resumed.2.world.clock = unbroken.2.world.clock := by
  intro left
  have opened : Frozen reader world (start reader world) := frozen_start rfl rfl stopped
  obtain ⟨frozen, idles⟩ := opened.watch service reached.indexed watched calm
  have closed : left.2.close = (reader, left.2.world) := by
    rw [close, frozen.buffer, ← frozen.reader]
    rfl
  rw [closed]
  refine ⟨idles, rfl, frozen.service, frozen.calls, fun receiver clock signal later => ?_⟩
  -- From the moment at which the signal is another, both worlds share all that matters.
  obtain ⟨findings, _, found, _, alike⟩ := watch_leaves service (later.map Prod.snd)
    ⟨reader, .fresh, { world with clock, signal }⟩
  obtain ⟨_, resumed, _⟩ := alike reader.settings.monitoring later
    ({ left.2.world.attend receiver with clock, signal } : World σ).dismiss List.prefix_rfl
    ⟨rfl, rfl, frozen.service, congrArg List.length frozen.calls⟩
  obtain ⟨_, unbroken, _⟩ := alike reader.settings.monitoring later
    ({ world.attend receiver with clock, signal } : World σ).dismiss List.prefix_rfl
    ⟨rfl, rfl, rfl, rfl⟩
  have sameCalls : left.2.world.calls = world.calls := frozen.calls
  have resumedRan : (start reader left.2.world).watch service
      ((receiver, .surround clock signal) :: later) =
        (.nothing :: findings.take later.length, _) :=
    congrArg (fun ran => (Finding.nothing :: ran.1, ran.2)) resumed
  have unbrokenRan : (start reader world).watch service
      ((receiver, .surround clock signal) :: later) =
        (.nothing :: findings.take later.length, _) :=
    congrArg (fun ran => (Finding.nothing :: ran.1, ran.2)) unbroken
  rw [resumedRan, unbrokenRan]
  refine ⟨rfl, rfl, rfl, ?_, rfl, rfl⟩
  simp only [World.calls, World.leave, World.dismiss, World.attend] at sameCalls ⊢
  rw [List.flatMap_append, List.flatMap_append, sameCalls]

/-- The signal goes up at once, and down after seven milliseconds. -/
def shortStop : Signal := (Signal.silent.plan 0 (.send true)).plan 7 (.send false)

/-- Two passes under the signal, the second of them six milliseconds later. -/
def shortPasses : List (ReceiverPlan × Deed) :=
  [([], .next 9 none), ([], .close), ([], .surround ⟨6, none⟩ shortStop), ([], .next 2 (some 5))]

/-- The passes of the first seven milliseconds leave no trace in the next one. -/
theorem shortStop_alike :
    let world : World Script :=
      { World.start (.describing Reader.splitOnce) .off with signal := shortStop }
    let left := ((start Reader.atSplit world).watch Script.service shortPasses).2
    let pass := fun session : Session Script => (session.watch Script.service
      [([], .surround ⟨8, none⟩ shortStop), ([], .next 9 none), ([], .close)]).2
    left.close.2.calls = [] ∧ left.close.1 = Reader.atSplit ∧
      (pass (start left.close.1 left.close.2)).world.calls.length = 3 ∧
      (pass (start left.close.1 left.close.2)).world.calls =
        (pass (start Reader.atSplit world)).world.calls := by
  intro world left pass
  obtain ⟨_, same, _, calls, alike⟩ := frozen_alike Reader.atSplit_reached Script.service world
    (show shortStop.raisedAt 0 = true by decide +kernel) shortPasses
    (by decide)
  have later := alike [] ⟨8, none⟩ shortStop [([], .next 9 none), ([], .close)]
  refine ⟨calls, same, by decide +kernel, ?_⟩
  dsimp only [left, pass] at later ⊢
  exact later.2.2.2.1

end Session
end ShardedStream
