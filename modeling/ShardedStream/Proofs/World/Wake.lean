import ShardedStream.Proofs.World.Settle

/-!
What a stretch of time leaves behind.
A dialogue looks at the time, the signal and the service, and it counts the calls; it only adds to
the record, to the notices and to what is observed. So it leaves the same behind in all worlds that
share the first three and the count, whatever has been recorded or observed there before.
-/

namespace ShardedStream

variable {σ α β : Type}

/-- This is what a stretch of time leaves behind in a world. -/
structure Wake (σ : Type) where
  clock : Clock
  signal : Signal
  service : σ
  exchanges : List Exchange
  notices : List Notice
  events : List Event

/-- Events are emitted one after the other. -/
def Monitor.emitAll (monitor : Monitor) (events : List Event) : Monitor :=
  events.foldl Monitor.emit monitor

theorem Monitor.emitAll_append (monitor : Monitor) (first second : List Event) :
    monitor.emitAll (first ++ second) = (monitor.emitAll first).emitAll second :=
  List.foldl_append

namespace Wake

/-- The second stretch follows on the first one. -/
def followedBy (first second : Wake σ) : Wake σ :=
  { second with
    exchanges := first.exchanges ++ second.exchanges
    notices := first.notices ++ second.notices
    events := first.events ++ second.events }

end Wake

namespace World

/-- A world in which nothing has happened yet leaves nothing behind. -/
def still (world : World σ) : Wake σ := ⟨world.clock, world.signal, world.service, [], [], []⟩

/-- The world after a stretch of time. -/
def leave (world : World σ) (wake : Wake σ) : World σ where
  clock := wake.clock
  signal := wake.signal
  service := wake.service
  monitor := world.monitor.emitAll wake.events
  exchanges := world.exchanges ++ wake.exchanges
  notices := world.notices ++ wake.notices

/-- Two worlds have the time, the signal and the service in common, after equally many calls. -/
structure Shares (world other : World σ) : Prop where
  clock : other.clock = world.clock
  signal : other.signal = world.signal
  service : other.service = world.service
  count : other.calls.length = world.calls.length

variable {world other : World σ} {service : Service σ} {plan : Nat → RetryPlan}

theorem leave_shares (shares : world.Shares other) (wake : Wake σ) :
    (world.leave wake).Shares (other.leave wake) :=
  ⟨rfl, rfl, rfl, by
    have count := shares.count
    simp only [calls] at count
    simp only [calls, leave, List.flatMap_append, List.length_append, count]⟩

theorem leave_still (shares : world.Shares other) : other.leave world.still = other := by
  obtain ⟨clock, signal, served, monitor, exchanges, notices⟩ := other
  obtain ⟨rfl, rfl, rfl, _⟩ := shares
  simp [leave, still, Monitor.emitAll]

theorem leave_leave (world : World σ) (first second : Wake σ) :
    (world.leave first).leave second = world.leave (first.followedBy second) := by
  simp [leave, Wake.followedBy, Monitor.emitAll_append]

/-- What is left behind in one of these worlds is left behind in all of them. -/
def LeavesWake (world : World σ) (run : World σ → α × World σ) : Prop :=
  ∃ value wake, ∀ other, world.Shares other → run other = (value, other.leave wake)

/-- What runs first leaves its wake, and what runs next starts from there. -/
theorem LeavesWake.andThen {first : World σ → α × World σ} (leaves : world.LeavesWake first)
    (next : α → World σ → β × World σ)
    (rest : ∀ value wake, (∀ other, world.Shares other → first other = (value, other.leave wake)) →
      (world.leave wake).LeavesWake (next value)) :
    world.LeavesWake fun other => next (first other).1 (first other).2 := by
  obtain ⟨value, wake, ran⟩ := leaves
  obtain ⟨last, second, later⟩ := rest value wake ran
  refine ⟨last, wake.followedBy second, fun other shares => ?_⟩
  simp only
  rw [ran other shares, later _ (leave_shares shares wake), leave_leave]

theorem report_leaves (world : World σ) (report : Report) :
    world.LeavesWake fun other => ((), other.report report) := by
  cases report with
  | event event =>
      refine ⟨(), ⟨world.clock, world.signal, world.service, [], [], [event]⟩, ?_⟩
      rintro ⟨clock, signal, served, monitor, exchanges, notices⟩ ⟨rfl, rfl, rfl, _⟩
      simp [report, emit, leave, Monitor.emitAll]
  | notice notice =>
      refine ⟨(), ⟨world.clock, world.signal, world.service, [], [notice], []⟩, ?_⟩
      rintro ⟨clock, signal, served, monitor, exchanges, notices⟩ ⟨rfl, rfl, rfl, _⟩
      simp [report, notify, leave, Monitor.emitAll]

theorem reportAll_leaves (world : World σ) (reports : List Report) :
    world.LeavesWake fun other => ((), other.reportAll reports) := by
  induction reports generalizing world with
  | nil => exact ⟨(), world.still, fun other shares => by rw [leave_still shares]; rfl⟩
  | cons report reports inductionHypothesis =>
      exact (report_leaves world report).andThen (fun _ other => ((), other.reportAll reports))
        fun _ wake _ => inductionHypothesis _

/-- A question leaves the same behind in all these worlds. -/
theorem settle_leaves (service : Service σ) (plan : Nat → RetryPlan) (request : Request)
    (world : World σ) : world.LeavesWake fun other => other.settle service plan request := by
  generalize ran : retry (plan world.calls.length) world.signal (service.call request) 0
    world.clock world.service = retried
  obtain ⟨outcome, attempts, made, notices, clock, state⟩ := retried
  cases outcome with
  | none =>
      refine ⟨none, ⟨clock, world.signal, state, [⟨request, made, none⟩], notices, []⟩, ?_⟩
      rintro ⟨otherClock, signal, served, monitor, exchanges, before⟩ ⟨rfl, rfl, rfl, count⟩
      simp only [settle, count, ran]
      rfl
  | some outcome =>
      refine ⟨some (request.settle outcome), ⟨clock, world.signal, state,
        [⟨request, made, some outcome⟩], notices ++ request.settleNotices outcome, []⟩, ?_⟩
      rintro ⟨otherClock, signal, served, monitor, exchanges, before⟩ ⟨rfl, rfl, rfl, count⟩
      simp only [settle, count, ran, notify, leave, List.append_assoc]
      rfl

/-- A dialogue that asks goes on when its question has been settled. -/
theorem converse_ask_eq (request : Request) (next : Settled request → Dialogue α)
    (world : World σ) :
    world.converse service plan (.ask request next) =
      match (world.settle service plan request).1 with
      | none => (none, (world.settle service plan request).2)
      | some settled => (world.settle service plan request).2.converse service plan
          (next settled) := by
  rw [converse]
  split
  · rename_i asked
    rw [asked]
  · rename_i asked
    rw [asked]

/-- A dialogue leaves the same behind in all these worlds. -/
theorem converse_leaves (service : Service σ) (plan : Nat → RetryPlan) (dialogue : Dialogue α)
    (world : World σ) : world.LeavesWake fun other => other.converse service plan dialogue := by
  induction dialogue generalizing world with
  | done value =>
      exact ⟨some value, world.still, fun other shares => by rw [leave_still shares]; rfl⟩
  | tell report next inductionHypothesis =>
      exact (report_leaves world report).andThen (fun _ other => other.converse service plan next)
        fun _ wake _ => inductionHypothesis _
  | ask request next inductionHypothesis =>
      simp only [converse_ask_eq]
      refine (settle_leaves service plan request world).andThen
        (fun answer other => match answer with
          | none => (none, other)
          | some settled => other.converse service plan (next settled)) fun answer wake _ => ?_
      cases answer with
      | none => exact ⟨none, _, fun other shares => by rw [leave_still shares]⟩
      | some settled => exact inductionHypothesis settled _

end World
end ShardedStream
