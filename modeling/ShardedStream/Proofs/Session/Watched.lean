import ShardedStream.Proofs.Monitor.Loss
import ShardedStream.Proofs.Reader.Succession
import ShardedStream.Proofs.Session.Deed

/-!
Monitoring never influences reading.
Whether a reader is monitored, how much room its channel has, and what the receiver does and when,
changes nothing that the caller or the service can see. The events themselves are the same every
time; a small or abandoned channel only loses some of them.
-/

namespace ShardedStream

variable {σ : Type}

/-- What happens to a channel while these events are emitted: its receiver acts before the first of
them, after each of them, and does the rest of its plan when no more come. -/
def ReceiverPlan.among (plan : ReceiverPlan) : List Event → List ChannelAct
  | [] => plan.flatten.map .receive
  | event :: events =>
    (plan.headD []).map .receive ++ .emit event :: among plan.tail events

/-- The same over several stretches of time, each with its own plan. -/
def ReceiverPlan.amongAll : List ReceiverPlan → List (List Event) → List ChannelAct
  | plan :: plans, events :: later => plan.among events ++ amongAll plans later
  | _, _ => []

/-- The receiver's acts emit nothing. -/
theorem emitted_receive (acts : List ReceiverAct) : emitted (acts.map .receive) = [] := by
  induction acts with
  | nil => rfl
  | cons act acts inductionHypothesis => exact inductionHypothesis

theorem emitted_among (plan : ReceiverPlan) (events : List Event) :
    emitted (plan.among events) = events := by
  induction events generalizing plan with
  | nil => exact emitted_receive _
  | cons event events inductionHypothesis =>
      rw [ReceiverPlan.among, emitted_append, emitted_receive, List.nil_append, emitted,
        inductionHypothesis]

/-- What is emitted does not depend on the receiver. -/
theorem emitted_amongAll (plans : List ReceiverPlan) (told : List (List Event)) :
    emitted (ReceiverPlan.amongAll plans told) = (told.take plans.length).flatten := by
  induction plans generalizing told with
  | nil => rfl
  | cons plan plans inductionHypothesis =>
      cases told with
      | nil => rfl
      | cons events later =>
          rw [ReceiverPlan.amongAll, emitted_append, emitted_among, inductionHypothesis]
          rfl

/-- A receiver without any plan does not go away. -/
theorem not_abandons_idle {plans : List ReceiverPlan} (idle : ∀ plan ∈ plans, plan = [])
    (told : List (List Event)) : ¬ Abandons (ReceiverPlan.amongAll plans told) := by
  have stays (events : List Event) : ¬ Abandons (ReceiverPlan.among [] events) := by
    induction events with
    | nil => exact List.not_mem_nil
    | cons event events inductionHypothesis =>
        exact fun gone => (List.mem_cons.mp gone).elim ChannelAct.noConfusion inductionHypothesis
  induction plans generalizing told with
  | nil => exact List.not_mem_nil
  | cons plan plans inductionHypothesis =>
      cases told with
      | nil => exact List.not_mem_nil
      | cons events later =>
          obtain rfl : plan = [] := idle plan List.mem_cons_self
          exact fun gone => (List.mem_append.mp gone).elim (stays events)
            (inductionHypothesis (fun plan member => idle plan (List.mem_cons_of_mem _ member)) later)

/-- A channel with room for everything keeps it all for a receiver without any plan. -/
theorem keeps_all {plans : List ReceiverPlan} (idle : ∀ plan ∈ plans, plan = [])
    {told : List (List Event)} {size : Nat} (roomy : told.flatten.length ≤ size) :
    let channel := (Channel.ofSize size).play (ReceiverPlan.amongAll plans told)
    channel.received ++ channel.waiting = (told.take plans.length).flatten := by
  have parts : told.flatten =
      (told.take plans.length).flatten ++ (told.drop plans.length).flatten := by
    rw [← List.flatten_append, List.take_append_drop]
  rw [parts, List.length_append] at roomy
  rw [← emitted_amongAll] at roomy ⊢
  exact (Channel.delivers size _).whole (not_abandons_idle idle told)
    (Nat.le_of_add_right_le roomy)

namespace Monitor

/-- What happens to a monitor happens to its channel. -/
def play (acts : List ChannelAct) (monitor : Monitor) : Monitor :=
  { monitor with channel := monitor.channel.map (Channel.play acts) }

theorem play_nil (monitor : Monitor) : monitor.play [] = monitor := by
  obtain ⟨channel, plan⟩ := monitor
  cases channel <;> rfl

theorem play_append (first second : List ChannelAct) (monitor : Monitor) :
    monitor.play (first ++ second) = (monitor.play first).play second := by
  obtain ⟨channel, plan⟩ := monitor
  cases channel with
  | none => rfl
  | some channel => simp [play]

theorem receive_eq (monitor : Monitor) (acts : List ReceiverAct) :
    monitor.receive acts = monitor.play (acts.map .receive) := by
  have same (channel : Channel) :
      acts.foldl Channel.receive channel = channel.play (acts.map .receive) := by
    rw [Channel.play, List.foldl_map]
    rfl
  simp only [receive, play, same]

/-- A receiver that sets about its plan acts among the events as planned. -/
theorem dismiss_emitAll (monitor : Monitor) (plan : ReceiverPlan) (events : List Event) :
    ((monitor.attend plan).emitAll events).dismiss =
      ⟨(monitor.play (plan.among events)).channel, []⟩ := by
  induction events generalizing monitor plan with
  | nil =>
      cases plan with
      | nil =>
          obtain ⟨channel, _⟩ := monitor
          cases channel <;> rfl
      | cons acts plan =>
          simp only [ReceiverPlan.among, List.flatten_cons, List.map_append, play_append,
            ← receive_eq]
          rfl
  | cons event events inductionHypothesis =>
      -- What the receiver does after the event is how it sets about the rest of its plan.
      have emit : (monitor.attend plan).emit event =
          attend ((monitor.play ((plan.headD []).map .receive)).play [.emit event]) plan.tail := by
        rw [← receive_eq]
        obtain ⟨channel, _⟩ := monitor
        cases channel <;> rfl
      have onward := inductionHypothesis
        ((monitor.play ((plan.headD []).map .receive)).play [.emit event]) plan.tail
      rw [← emit, ← play_append, ← play_append] at onward
      exact onward

/-- What has happened to a new monitor has happened to its channel, if it has one. -/
theorem ofSettings_play (settings : MonitorSettings) (acts : List ChannelAct) :
    (settings.enabled = false → (ofSettings settings).play acts = off) ∧
      (settings.enabled = true → (ofSettings settings).play acts =
        ⟨some ((Channel.ofSize settings.channelSize).play acts), []⟩) := by
  obtain ⟨enabled, size⟩ := settings
  cases enabled with
  | false => exact ⟨fun _ => rfl, nofun⟩
  | true => exact ⟨nofun, fun _ => rfl⟩

theorem plan_ofSettings (settings : MonitorSettings) : (ofSettings settings).plan = [] := by
  unfold ofSettings
  split <;> rfl

end Monitor

/-- The receiver sets about its plan. -/
def World.attend (world : World σ) (plan : ReceiverPlan) : World σ :=
  { world with monitor := world.monitor.attend plan }

/-- The receiver does all that is left of its plan. -/
def World.dismiss (world : World σ) : World σ := { world with monitor := world.monitor.dismiss }

namespace World

variable {world other : World σ}

/-- The receiver's plan is not among the things that two worlds have in common. -/
theorem Shares.attend (shares : world.Shares other) (plan : ReceiverPlan) :
    world.Shares (other.attend plan) :=
  ⟨shares.clock, shares.signal, shares.service, shares.count⟩

theorem Shares.dismiss (shares : world.Shares other) : world.Shares other.dismiss :=
  ⟨shares.clock, shares.signal, shares.service, shares.count⟩

/-- What a deed tells comes among the acts of a receiver that has only the plan for the deed. -/
theorem dismiss_leave_monitor (idle : other.monitor.plan = []) (plan : ReceiverPlan)
    (wake : Wake σ) :
    ((other.attend plan).leave wake).dismiss.monitor =
      other.monitor.play (plan.among wake.events) := by
  refine (other.monitor.dismiss_emitAll plan wake.events).trans ?_
  rw [← idle]
  rfl

end World

namespace Session

/-- The deeds of a caller, with what the caller gets. The receiver has a plan for each of them. -/
def watch (service : Service σ) :
    List (ReceiverPlan × Deed) → Session σ → List Finding × Session σ
  | [], session => ([], session)
  | (plan, deed) :: rest, session =>
    let performed := perform service { session with world := session.world.attend plan } deed
    let later := watch service rest { performed.2 with world := performed.2.world.dismiss }
    (performed.1 :: later.1, later.2)

/-- Whatever the receiver does, so many of the deeds leave the same behind. -/
theorem watch_leaves (service : Service σ) (deeds : List Deed) (session : Session σ) :
    ∃ (findings : List Finding) (told : List (List Event))
      (left : Nat → Reader × Pass × Wake σ), told.length = deeds.length ∧
      ∀ monitoring (watched : List (ReceiverPlan × Deed)) other,
        watched.map Prod.snd <+: deeds → session.world.Shares other →
          ∃ monitor,
            watch service watched ⟨session.reader.watchedBy monitoring, session.pass, other⟩ =
              (findings.take watched.length,
                ⟨(left watched.length).1.watchedBy monitoring, (left watched.length).2.1,
                  { other.leave (left watched.length).2.2 with monitor }⟩) ∧
            (other.monitor.plan = [] → monitor =
              other.monitor.play (ReceiverPlan.amongAll (watched.map Prod.fst) told)) := by
  induction deeds generalizing session with
  | nil =>
      refine ⟨[], [], fun _ => (session.reader, session.pass, session.world.still), rfl,
        fun monitoring watched other part shares => ⟨other.monitor, ?_, fun _ => ?_⟩⟩
      · obtain rfl := List.map_eq_nil_iff.mp (List.prefix_nil.mp part)
        rw [World.leave_still shares]
        rfl
      · obtain rfl := List.map_eq_nil_iff.mp (List.prefix_nil.mp part)
        exact other.monitor.play_nil.symm
  | cons deed deeds inductionHypothesis =>
      obtain ⟨finding, between, pass, first, performed⟩ := perform_leaves service deed session
      obtain ⟨findings, told, left, length, rest⟩ :=
        inductionHypothesis ⟨between, pass, session.world.leave first⟩
      refine ⟨finding :: findings, first.events :: told, fun
        | 0 => (session.reader, session.pass, session.world.still)
        | count + 1 => ((left count).1, (left count).2.1, first.followedBy (left count).2.2),
        congrArg Nat.succ length, ?_⟩
      intro monitoring watched other part shares
      cases watched with
      | nil =>
          refine ⟨other.monitor, ?_, fun _ => other.monitor.play_nil.symm⟩
          simp only [List.length_nil, World.leave_still shares]
          rfl
      | cons entry watched =>
          obtain ⟨plan, own⟩ := entry
          obtain ⟨rfl, others⟩ := List.cons_prefix_cons.mp part
          have attended := shares.attend plan
          have now := performed monitoring _ attended
          dsimp only at now
          obtain ⟨monitor, later, played⟩ :=
            rest monitoring watched _ others (World.leave_shares attended first).dismiss
          refine ⟨monitor, ?_, fun idle => ?_⟩
          · simp only [watch, now, later]
            simp only [List.length_cons, List.take_succ_cons, World.leave, World.attend,
              World.dismiss, Wake.followedBy, List.append_assoc]
          · have own := World.dismiss_leave_monitor idle plan first
            rw [played (by rw [own]; exact idle), own, ← Monitor.play_append]
            rfl

/-- A new reader in a world that watches it. -/
def startWatched (settings : ReaderSettings) (world : World σ) (monitoring : MonitorSettings) :
    Session σ :=
  start (.ofSettings { settings with monitoring })
    { world with monitor := .ofSettings monitoring }

/-- A new reader leaves the same behind, beside what happens among the events. -/
theorem watch_startWatched (service : Service σ) (settings : ReaderSettings) (world : World σ)
    (deeds : List Deed) :
    ∃ (findings : List Finding) (told : List (List Event)) (left : Nat → Session σ),
      told.length = deeds.length ∧
      ∀ monitoring (watched : List (ReceiverPlan × Deed)), watched.map Prod.snd <+: deeds →
        let now := left watched.length
        (startWatched settings world monitoring).watch service watched =
          (findings.take watched.length, ⟨now.reader.watchedBy monitoring, now.pass,
            { now.world with
              monitor := (Monitor.ofSettings monitoring).play
                (ReceiverPlan.amongAll (watched.map Prod.fst) told) }⟩) := by
  obtain ⟨findings, told, left, length, alike⟩ :=
    watch_leaves service deeds (start (.ofSettings settings) world)
  refine ⟨findings, told,
    fun count => ⟨(left count).1, (left count).2.1, world.leave (left count).2.2⟩, length,
    fun monitoring watched part => ?_⟩
  obtain ⟨monitor, ran, played⟩ := alike monitoring watched
    { world with monitor := .ofSettings monitoring } part ⟨rfl, rfl, rfl, rfl⟩
  rw [← played (Monitor.plan_ofSettings monitoring)]
  exact ran

/--
Monitoring never influences reading. For all settings of the monitoring, and whatever the receiver
does before, amid and after each deed, the caller finds the same, and the reader, the pass, the
time, the service and the record of calls are the same after each deed. The events that are told are
the same too: a channel with room for all of them gets them all. Any other channel, among whose
events the receiver acts as it plans to, delivers them in order but for those that find it full or
abandoned.
-/
theorem watched_alike (service : Service σ) (settings : ReaderSettings) (world : World σ)
    (deeds : List Deed) :
    ∃ (findings : List Finding) (told : List (List Event)) (left : Nat → Session σ),
      told.length = deeds.length ∧
      (∀ size count, told.flatten.length ≤ size → ∃ channel,
        ((startWatched settings world ⟨true, size⟩).watch service
          ((deeds.take count).map ([], ·))).2.world.monitor = ⟨some channel, []⟩ ∧
        channel.received ++ channel.waiting = (told.take count).flatten) ∧
      ∀ monitoring (watched : List (ReceiverPlan × Deed)), watched.map Prod.snd <+: deeds →
        let now := left watched.length
        let history := ReceiverPlan.amongAll (watched.map Prod.fst) told
        emitted history = (told.take watched.length).flatten ∧
        ∃ monitor,
          (startWatched settings world monitoring).watch service watched =
            (findings.take watched.length,
              ⟨now.reader.watchedBy monitoring, now.pass, { now.world with monitor }⟩) ∧
          (monitoring.enabled = false → monitor = .off) ∧
          (monitoring.enabled = true → ∃ channel, monitor = ⟨some channel, []⟩ ∧
            Channel.Delivers monitoring.channelSize history channel) := by
  obtain ⟨findings, told, left, length, alike⟩ := watch_startWatched service settings world deeds
  refine ⟨findings, told, left, length, fun size count roomy => ?_,
    fun monitoring watched part => ⟨?_, ?_⟩⟩
  · let watched : List (ReceiverPlan × Deed) := (deeds.take count).map ([], ·)
    have part : watched.map Prod.snd <+: deeds := by
      simpa [watched] using List.take_prefix count deeds
    have idle : ∀ plan ∈ watched.map Prod.fst, plan = [] := by simp [watched]
    have counted : (watched.map Prod.fst).length = min count told.length := by
      simp [watched, length]
    rw [alike ⟨true, size⟩ watched part]
    refine ⟨_, (Monitor.ofSettings_play ⟨true, size⟩ _).2 rfl, ?_⟩
    rw [keeps_all idle roomy, counted, ← List.take_eq_take_min]
  · rw [emitted_amongAll, List.length_map]
  · obtain ⟨off, on⟩ := Monitor.ofSettings_play monitoring
      (ReceiverPlan.amongAll (watched.map Prod.fst) told)
    exact ⟨_, alike monitoring watched part, off, fun enabled =>
      ⟨_, on enabled, Channel.delivers monitoring.channelSize _⟩⟩

/-- The split shard is read to its end, and its successor has nothing new. -/
def splitService : Script :=
  (Script.describing Reader.splitOnce).queueBatches "A"
    [.now (.ok ⟨[⟨"110", "key", [], none⟩], false, 5⟩)]

/-- There is no room for any event, which means for one. The receiver drains its channel between the
first two events, and once more while the next record is looked for; then it goes away. -/
def hastyDeeds : List (ReceiverPlan × Deed) :=
  [([[], [.drain]], .next 9 none), ([[], [], [.drain], [.leave]], .next 9 none),
    ([[.drain]], .close)]

/-- Everything is read as it is without monitoring; of the eight events the receiver gets two. -/
theorem splitService_alike :
    let world : World Script := .start splitService .off
    let settings := ReaderSettings.ofStream "stream"
    let unwatched := (startWatched settings world ⟨false, 1000⟩).watch Script.service
      (hastyDeeds.map fun entry => ([], entry.2))
    let hasty := (startWatched settings world ⟨true, 0⟩).watch Script.service hastyDeeds
    unwatched.1 = hasty.1 ∧ unwatched.2.world.exchanges = hasty.2.world.exchanges ∧
      hasty.2.world.calls.length = 6 ∧
      hasty.2.world.monitor.channel.map (fun channel => channel.received.map Event.name) =
        some ["shard_assigned", "iterator_acquired"] := by
  intro world settings unwatched hasty
  obtain ⟨findings, told, left, _, _, alike⟩ :=
    watched_alike Script.service settings world (hastyDeeds.map Prod.snd)
  obtain ⟨_, _, first, _⟩ := alike ⟨false, 1000⟩ (hastyDeeds.map fun entry => ([], entry.2))
    List.prefix_rfl
  obtain ⟨_, _, second, _⟩ := alike ⟨true, 0⟩ hastyDeeds List.prefix_rfl
  have unwatchedRan : unwatched = _ := first
  have hastyRan : hasty = _ := second
  refine ⟨?_, ?_, by decide +kernel, by decide +kernel⟩
  · rw [unwatchedRan, hastyRan]
    rfl
  · rw [unwatchedRan, hastyRan]
    rfl

end Session
end ShardedStream
