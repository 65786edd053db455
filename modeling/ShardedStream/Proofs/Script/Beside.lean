import ShardedStream.Proofs.Script.Steady

/-!
Turns beside the troubled shards.
A turn about a troubled shard cannot be seen beside it. A turn about any other shard comes to the
same in two sessions that look alike, whatever has befallen the troubled shards in either of them.
-/

namespace ShardedStream

open Script
open World (SameFor)

variable {shards : List Shard} {settings : ReaderSettings} {names : ShardId → Token → Prop}
  {only shard : ShardId} {before after : Script} {aside : ShardId → Bool}

namespace Script

/-- Whatever the script of a shard holds, none of it ends a pass. -/
structure Harmless (script : Script) (shard : ShardId) : Prop where
  unopened : ∀ reply ∈ script.iterators.getD shard [], ∀ fault, reply.result = .error fault →
    fault.isThrottling = true ∨ fault.isNotFound = true
  unread : ∀ reply ∈ script.batches.getD shard [], ∀ fault, reply.result = .error fault →
    fault.isThrottling = true ∨ fault.isExpiredIterator = true ∨ fault.isNotFound = true

/-- The troubled shards come with all shards below them, and their scripts are harmless. -/
structure Confines (aside : ShardId → Bool) (shards : List Shard) (script : Script) : Prop where
  below : ∀ upper lower, Lineage.AncestorOf shards upper lower → aside upper = false →
    aside lower = false
  harmless : ∀ shard, aside shard = false → script.Harmless shard

theorem Confines.keep (confines : Confines aside shards before)
    (keeps : Keeps names only before after) : Confines aside shards after where
  below := confines.below
  harmless := fun shard troubled =>
    ⟨fun reply member => (confines.harmless shard troubled).unopened reply
        ((keeps.iterators_suffix shard).subset member),
      fun reply member => (confines.harmless shard troubled).unread reply
        ((keeps.batches_suffix shard).subset member)⟩

variable {plan : RetryPlan} {world later : World Script}

/-- An iterator that a harmless script refuses is refused for good, or for this pass. -/
theorem Opens.unfailing {stream : String} {position : Position} {failure : RetryFailure}
    (opens : Opens names plan stream shard position world (.error failure) later)
    (harmless : world.service.Harmless shard) :
    ∃ outcome, unopenedResult shard failure = .ok outcome := by
  obtain ⟨drawn, outcome, fits⟩ := opens.drawn
  cases fits
  rcases (RetryPlan.draws_of_draw outcome).failure rfl with
    ⟨budget, rfl⟩ | ⟨reply, member, fault, said, fatal, rfl⟩
  · exact ⟨_, rfl⟩
  · rcases harmless.unopened reply member fault said with throttling | gone
    · rw [throttling] at fatal
      cases fatal
    · exact ⟨_, if_pos gone⟩

/-- A read from a harmless script does not fail. -/
theorem Receives.unfailing {token : Token} {limit : Int} {fresh : Bool}
    {answer : Except RetryFailure Batch}
    (receives : Receives names plan shard token limit world answer later)
    (harmless : world.service.Harmless shard) :
    ∃ outcome, readResult shard token fresh answer = .ok outcome := by
  obtain ⟨drawn, outcome, fits⟩ := receives.drawn
  cases answer with
  | ok batch => exact ⟨_, rfl⟩
  | error failure =>
      cases fits
      rcases (RetryPlan.draws_of_draw outcome).failure rfl with
        ⟨budget, rfl⟩ | ⟨reply, member, fault, said, fatal, rfl⟩
      · exact ⟨_, rfl⟩
      · rcases harmless.unread reply member fault said with throttling | expired | gone
        · rw [throttling] at fatal
          cases fatal
        · cases fault with
          | expiredIterator => exact ⟨_, rfl⟩
          | _ => cases expired
        · exact ⟨_, if_pos gone⟩

end Script

/-- A visit to a shard with a harmless script does not fail. -/
theorem Visits.unfailing {reader : Reader} {tracked : Tracked} {world later : World Script}
    {result : Except ReaderError Outcome}
    (visits : Visits names reader tracked world result later)
    (unscripted : world.service.descriptions = [])
    (harmless : world.service.Harmless tracked.id) : ∃ outcome, result = .ok outcome := by
  cases visits with
  | opened _ opens receives =>
      refine receives.unfailing ⟨fun reply member => harmless.unopened reply ?_,
        fun reply member => harmless.unread reply ?_⟩
      · rw [World.report_service] at member
        exact (opens.keeps.iterators_suffix _).subset member
      · rwa [World.report_service, opens.batches] at member
  | unopened _ opens => exact opens.unfailing harmless
  | read _ receives => exact receives.unfailing harmless
  | lookedUp _ describes =>
      rw [(describes.unscripted unscripted).1]
      exact ⟨_, rfl⟩
  | idle _ => exact ⟨_, rfl⟩

namespace Session

/-- The shard that the next turn is about, if it is about one. -/
def due? (session : Session Script) : Option ShardId :=
  match session.pass.buffer with
  | delivery :: _ => some delivery.shard
  | [] =>
    if session.pass.started && !session.pass.finished then session.pass.queue.head? else none

variable {session : Session Script}

/-- A turn that opens the pass opens the reader, unless it is open. -/
theorem Steady.advance_enter (steady : session.Steady shards settings)
    (empty : session.pass.buffer = []) (unfinished : session.pass.finished = false)
    (unstarted : session.pass.started = false) :
    ∃ world, session.advance service = (.moved, session.enterWith
        (if session.reader.initialized then session.reader else session.reader.opening shards)
        world) ∧
      ∀ shard, SameFor shard session.world world := by
  rw [advance_unstarted empty unfinished unstarted]
  cases ready : session.reader.initialized with
  | true =>
      have prepared : session.world.converse service session.plan session.reader.prepare =
          (some (.ok (some session.reader)), session.world) := Reader.converse_prepared ready _
      simp only [enter, plan] at prepared ⊢
      rw [prepared]
      exact ⟨session.world, rfl, fun shard => .refl shard _⟩
  | false =>
      obtain ⟨answer, later, settled, describes⟩ := settle_describes session.plan
        session.reader.settings.stream steady.regular.patient
      obtain ⟨rfl, same⟩ := describes.unscripted steady.plain.undescribed
      have prepared := Reader.converse_prepare ready settled
      simp only [enter, plan, steady.plain.description] at prepared ⊢
      rw [prepared]
      refine ⟨_, rfl, fun shard => .trans ⟨?_, ?_, ?_⟩ (World.sameFor_reportAll shard later _)⟩
      · rw [same]
      · rw [same]
      · exact describes.asked.openings_silent rfl

/-- Two sessions look alike beside the troubled shards. -/
structure Alike (aside : ShardId → Bool) (first second : Session Script) : Prop where
  reader : first.reader.Alike aside second.reader
  queue : second.pass.queue.filter aside = first.pass.queue.filter aside
  buffer : (second.pass.buffer.filter fun delivery => aside delivery.shard) =
    first.pass.buffer.filter fun delivery => aside delivery.shard
  started : second.pass.started = first.pass.started
  finished : second.pass.finished = first.pass.finished
  world : ∀ shard, aside shard = true → SameFor shard first.world second.world

variable {first second third : Session Script}

theorem Alike.symm (alike : Alike aside first second) : Alike aside second first :=
  ⟨alike.reader.symm, alike.queue.symm, alike.buffer.symm, alike.started.symm,
    alike.finished.symm, fun shard beside => (alike.world shard beside).symm⟩

theorem Alike.trans (alike : Alike aside first second) (next : Alike aside second third) :
    Alike aside first third :=
  ⟨alike.reader.trans next.reader, next.queue.trans alike.queue, next.buffer.trans alike.buffer,
    next.started.trans alike.started, next.finished.trans alike.finished,
    fun shard beside => (alike.world shard beside).trans (next.world shard beside)⟩

theorem absorb_dequeue (session : Session Script) (shard : ShardId) (rest : List ShardId)
    (world : World Script) (outcome : Outcome) :
    (session.dequeue rest world).absorb shard outcome =
      let applied := session.reader.apply outcome
      ⟨applied.2, { session.pass with
          queue := (if applied.1.revisit then shard :: rest else rest) ++ applied.1.newShards
          buffer := session.pass.buffer ++ applied.1.deliveries },
        world.reportAll applied.1.reports⟩ := rfl

/-- A visit to a troubled shard cannot be seen beside it. -/
theorem Steady.troubled_visit (steady : session.Steady shards settings)
    (confines : session.world.service.Confines aside shards)
    (distinct : (shards.map Shard.id).Nodup) (acyclic : (Lineage.ofShards shards).Acyclic)
    (empty : session.pass.buffer = []) {tracked : Tracked} {rest : List ShardId}
    (queued : session.pass.queue = tracked.id :: rest)
    (member : tracked ∈ session.reader.shards) {outcome : Outcome} {later : World Script}
    (steps : session.reader.Steps service tracked session.world outcome later)
    (visits : Visits names session.reader tracked session.world (.ok outcome) later)
    (troubled : aside tracked.id = false) :
    session.Alike aside ((session.dequeue rest later).absorb tracked.id outcome) := by
  have indexed := steady.regular.indexed
  have brings := steps.brings indexed
  have within : ∀ entry ∈ outcome.transition.entries, aside entry.shard = false := by
    intro entry chosen
    rcases steady.outcome_cases steps visits with ⟨none, _⟩ | ⟨_, rfl⟩
    · rw [none] at chosen
      exact absurd chosen List.not_mem_nil
    · exact confines.below _ _
        (steady.ordered.below_of_successor distinct acyclic member chosen) troubled
  have hidden : ∀ {id}, aside id = false → ¬ aside id = true := ne_true_of_eq_false
  have newShards : (session.reader.apply outcome).1.newShards.filter aside = [] := by
    rw [Reader.effect_apply indexed member steps.shard, brings.brought indexed]
    refine List.filter_eq_nil_iff.mpr fun id new => ?_
    obtain ⟨entry, chosen, rfl⟩ := List.mem_map.mp new
    exact hidden (within entry chosen)
  rw [absorb_dequeue]
  refine ⟨Reader.alike_apply indexed member steps.shard brings troubled within, ?_, ?_, rfl, rfl,
    fun shard beside => ?_⟩
  · simp only [queued, List.filter_append, newShards, List.append_nil,
      List.filter_cons_of_neg (hidden troubled)]
    split
    · exact List.filter_cons_of_neg (hidden troubled)
    · rfl
  · simp only [empty, Reader.deliveries_apply indexed member steps.shard, List.nil_append,
      List.filter_nil]
    refine List.filter_eq_nil_iff.mpr fun delivery waits => ?_
    obtain ⟨record, _, rfl⟩ := List.mem_map.mp waits
    exact hidden troubled
  · have apart : shard ≠ tracked.id := by
      rintro rfl
      exact hidden troubled beside
    exact (visits.sameFor_other apart).trans (World.sameFor_reportAll shard later _)

/-- A turn about a troubled shard cannot be seen beside it. -/
theorem Steady.troubled_turn (steady : session.Steady shards settings)
    (confines : session.world.service.Confines aside shards)
    (distinct : (shards.map Shard.id).Nodup) (acyclic : (Lineage.ofShards shards).Acyclic)
    (due : session.due? = some shard) (troubled : aside shard = false) :
    ((session.advance service).1 = .moved ∨ ∃ delivery,
        (session.advance service).1 = .delivered delivery ∧ aside delivery.shard = false) ∧
      session.Alike aside (session.advance service).2 := by
  cases buffer : session.pass.buffer with
  | cons delivery rest =>
      rw [due?, buffer] at due
      obtain rfl := Option.some.inj due
      rw [advance_delivery buffer]
      refine ⟨.inr ⟨delivery, rfl, troubled⟩, Reader.alike_handOut _ troubled, rfl, ?_, rfl, rfl,
        fun shard _ => .refl shard _⟩
      rw [buffer, List.filter_cons_of_neg (by rw [troubled]; exact Bool.false_ne_true)]
  | nil =>
      rw [due?, buffer] at due
      simp only at due
      split at due
      · rename_i goesOn
        obtain ⟨started, unfinished⟩ := Bool.and_eq_true_iff.mp goesOn
        obtain ⟨rest, queued⟩ := List.head?_eq_some_iff.mp due
        obtain ⟨tracked, member, rfl, result, later, visits, steps, advanced⟩ :=
          steady.regular.advance_visit buffer (Bool.not_eq_true' _ ▸ unfinished) started queued
        obtain ⟨outcome, rfl⟩ := visits.unfailing steady.plain.undescribed
          (confines.harmless _ troubled)
        rw [advanced]
        refine ⟨.inl rfl, ?_⟩
        exact steady.troubled_visit confines distinct acyclic buffer queued member
          (steps _ rfl) visits troubled
      · cases due

/-- The records that wait beside, when the next turn is not about a troubled shard. -/
theorem beside_buffer (calm : ∀ shard, session.due? = some shard → aside shard = true) :
    session.pass.buffer = [] ∨ ∃ delivery rest, session.pass.buffer = delivery :: rest ∧
      (session.pass.buffer.filter fun delivery => aside delivery.shard) =
        delivery :: rest.filter fun delivery => aside delivery.shard := by
  cases buffer : session.pass.buffer with
  | nil => exact .inl rfl
  | cons delivery rest =>
      refine .inr ⟨delivery, rest, rfl, List.filter_cons_of_pos (calm _ ?_)⟩
      rw [due?, buffer]

/-- The shards to visit beside, when the next turn is not about a troubled shard. -/
theorem beside_queue (calm : ∀ shard, session.due? = some shard → aside shard = true)
    (empty : session.pass.buffer = []) (unfinished : session.pass.finished = false)
    (started : session.pass.started = true) :
    session.pass.queue = [] ∨ ∃ shard rest, session.pass.queue = shard :: rest ∧
      aside shard = true ∧ session.pass.queue.filter aside = shard :: rest.filter aside := by
  cases queue : session.pass.queue with
  | nil => exact .inl rfl
  | cons shard rest =>
      have beside : aside shard = true := by
        refine calm shard ?_
        rw [due?, empty]
        simp only [unfinished, started, queue]
        rfl
      exact .inr ⟨shard, rest, rfl, beside, List.filter_cons_of_pos beside⟩

/-- The successors of one shard are the same in both sessions, whatever else they track. -/
theorem Steady.successors_same (steady : first.Steady shards settings)
    (otherSteady : second.Steady shards settings) (distinct : (shards.map Shard.id).Nodup)
    (acyclic : (Lineage.ofShards shards).Acyclic) {tracked other : Tracked}
    (member : tracked ∈ first.reader.shards) (otherMember : other ∈ second.reader.shards)
    (same : other.tokenless = tracked.tokenless) (ended : tracked.phase = .exhausted) :
    (second.reader.successors tracked.id shards).entries =
      (first.reader.successors tracked.id shards).entries := by
  have id := Tracked.id_of_tokenless same
  have phase : other.phase = .exhausted := by
    rcases Phase.of_tokenless (Tracked.phase_of_tokenless same) with ⟨_, _, reading, _⟩ | ⟨equal, _⟩
    · rw [ended] at reading
      cases reading
    · exact equal.trans ended
  have unfinished : tracked.phase ≠ .done := fun done => by
    rw [ended] at done
    cases done
  have otherUnfinished : other.phase ≠ .done := fun done => by
    rw [phase] at done
    cases done
  have otherEntries := otherSteady.ordered.successors_entries otherSteady.regular.indexed distinct
    acyclic otherMember otherUnfinished
  rw [id] at otherEntries
  rw [otherEntries, steady.ordered.successors_entries steady.regular.indexed distinct acyclic member
    unfinished]
  -- Nothing is tracked below the shard in either session, so its entries are the first ones.
  refine congrArg Assignments.entries (Assignments.afterEnd_congr fun lower ancestor => ?_)
  rw [steady.saved lower (steady.ordered.untracked_below steady.regular.indexed member unfinished
      ancestor),
    otherSteady.saved lower (otherSteady.ordered.untracked_below otherSteady.regular.indexed
      otherMember otherUnfinished (id.symm ▸ ancestor))]

/-- Two visits to the same shard beside come to the same. -/
theorem Alike.visit (alike : Alike aside first second) (steady : first.Steady shards settings)
    (otherSteady : second.Steady shards settings)
    (pauses : first.reader.settings.retry.PausesAlike) (distinct : (shards.map Shard.id).Nodup)
    (acyclic : (Lineage.ofShards shards).Acyclic) (empty : first.pass.buffer = [])
    (unfinished : first.pass.finished = false) (started : first.pass.started = true)
    (otherEmpty : second.pass.buffer = []) {rest others : List ShardId}
    (queued : first.pass.queue = shard :: rest) (otherQueued : second.pass.queue = shard :: others)
    (beside : aside shard = true) (same : others.filter aside = rest.filter aside) :
    (second.advance service).1 = (first.advance service).1 ∧
      (first.advance service).2.Alike aside (second.advance service).2 := by
  obtain ⟨tracked, member, rfl, result, later, visits, steps, advanced⟩ :=
    steady.regular.advance_visit empty unfinished started queued
  obtain ⟨other, otherMember, id, otherResult, otherLater, otherVisits, otherSteps,
    otherAdvanced⟩ := otherSteady.regular.advance_visit otherEmpty
      (alike.finished.trans unfinished) (alike.started.trans started) otherQueued
  have twin : other.tokenless = tracked.tokenless := by
    obtain ⟨found, foundMember, looks⟩ := alike.reader.exists_tracked member beside
    rwa [otherSteady.regular.indexed.eq_of_id_eq otherMember foundMember
      (id.trans (Tracked.id_of_tokenless looks).symm)]
  obtain ⟨results, left⟩ := visits.alike otherVisits alike.reader.settings pauses twin
    (alike.world _ beside)
    (otherSteady.plain.description.trans steady.plain.description.symm) steady.plain.undescribed
    otherSteady.plain.undescribed fun ended => by
      rw [steady.plain.description]
      exact steady.successors_same otherSteady distinct acyclic member otherMember twin ended
  have worlds : ∀ id, aside id = true → SameFor id later otherLater := by
    intro id chosen
    by_cases own : id = tracked.id
    · exact own ▸ left
    · exact ((visits.sameFor_other own).symm.trans (alike.world id chosen)).trans
        (otherVisits.sameFor_other fun same => own (same.trans (Tracked.id_of_tokenless twin)))
  rw [advanced, otherAdvanced]
  cases results with
  | failure error =>
      exact ⟨rfl, alike.reader, same, alike.buffer, alike.started, rfl, fun id chosen =>
        ⟨(worlds id chosen).iterators, (worlds id chosen).batches, (worlds id chosen).openings⟩⟩
  | @value outcome otherOutcome outcomes =>
      have taken := steps outcome rfl
      obtain ⟨readers, deliveries, newShards, revisit⟩ := alike.reader.apply steady.regular.indexed
        otherSteady.regular.indexed member otherMember twin beside outcomes taken.shard
        (taken.brings steady.regular.indexed)
        ((otherSteps otherOutcome rfl).brings otherSteady.regular.indexed)
      simp only [visited, absorb_dequeue]
      refine ⟨trivial, readers, ?_, ?_, alike.started, alike.finished, fun id chosen => ?_⟩
      · simp only [List.filter_append, newShards, revisit]
        split
        · rw [List.filter_cons_of_pos beside, List.filter_cons_of_pos beside, same]
        · rw [same]
      · simp only [empty, otherEmpty, List.nil_append, deliveries]
      · exact ((World.sameFor_reportAll id later _).symm.trans (worlds id chosen)).trans
          (World.sameFor_reportAll id otherLater _)

/-- Passes that open in sessions that look alike visit the same shards beside. -/
theorem Alike.enter (alike : Alike aside first second) (steady : first.Steady shards settings)
    (otherSteady : second.Steady shards settings) (empty : first.pass.buffer = [])
    (unfinished : first.pass.finished = false) (unstarted : first.pass.started = false)
    (otherEmpty : second.pass.buffer = []) :
    (second.advance service).1 = (first.advance service).1 ∧
      (first.advance service).2.Alike aside (second.advance service).2 := by
  obtain ⟨world, advanced, same⟩ := steady.advance_enter empty unfinished unstarted
  obtain ⟨otherWorld, otherAdvanced, otherSame⟩ := otherSteady.advance_enter otherEmpty
    (alike.finished.trans unfinished) (alike.started.trans unstarted)
  have readers : Reader.Alike aside
      (if first.reader.initialized then first.reader else first.reader.opening shards)
      (if second.reader.initialized then second.reader else second.reader.opening shards) := by
    rw [alike.reader.initialized]
    cases ready : first.reader.initialized with
    | true => exact alike.reader
    | false =>
        -- Nothing has happened to either reader yet.
        have equal : second.reader = first.reader :=
          (otherSteady.fresh (alike.reader.initialized.trans ready)).trans (steady.fresh ready).symm
        rw [equal]
        exact .refl aside _
  rw [advanced, otherAdvanced]
  refine ⟨rfl, readers, ?_, ?_, rfl, alike.finished, fun id chosen =>
    ((same id).symm.trans (alike.world id chosen)).trans (otherSame id)⟩
  · simp only [enterWith, Reader.activeShards_aside, readers.seen]
  · simp only [enterWith, empty, otherEmpty]

/-- A turn that is not about a troubled shard comes to the same in sessions that look alike. -/
theorem Alike.turn (alike : Alike aside first second) (steady : first.Steady shards settings)
    (otherSteady : second.Steady shards settings)
    (pauses : first.reader.settings.retry.PausesAlike) (distinct : (shards.map Shard.id).Nodup)
    (acyclic : (Lineage.ofShards shards).Acyclic)
    (calm : ∀ shard, first.due? = some shard → aside shard = true)
    (otherCalm : ∀ shard, second.due? = some shard → aside shard = true) :
    (second.advance service).1 = (first.advance service).1 ∧
      (first.advance service).2.Alike aside (second.advance service).2 := by
  have buffers := alike.buffer
  have queues := alike.queue
  rcases beside_buffer calm with empty | ⟨delivery, rest, held, waits⟩
  · rcases beside_buffer otherCalm with otherEmpty | ⟨delivery, rest, _, waits⟩
    · cases finished : first.pass.finished with
      | true =>
          rw [advance_finished empty finished,
            advance_finished otherEmpty (alike.finished.trans finished)]
          exact ⟨rfl, alike⟩
      | false =>
          cases started : first.pass.started with
          | false => exact alike.enter steady otherSteady empty finished started otherEmpty
          | true =>
              have otherFinished := alike.finished.trans finished
              have otherStarted := alike.started.trans started
              rcases beside_queue calm empty finished started with
                visited | ⟨shard, rest, queued, beside, waits⟩
              · rcases beside_queue otherCalm otherEmpty otherFinished otherStarted with
                  otherVisited | ⟨_, _, _, _, waits⟩
                · rw [advance_drained empty finished started visited,
                    advance_drained otherEmpty otherFinished otherStarted otherVisited]
                  exact ⟨rfl, alike.reader, alike.queue, alike.buffer, alike.started, rfl,
                    alike.world⟩
                · rw [waits, visited] at queues
                  cases queues
              · rcases beside_queue otherCalm otherEmpty otherFinished otherStarted with
                  otherVisited | ⟨other, others, otherQueued, _, otherWaits⟩
                · rw [waits, otherVisited] at queues
                  cases queues
                · rw [waits, otherWaits] at queues
                  obtain ⟨rfl, same⟩ := List.cons.inj queues
                  exact alike.visit steady otherSteady pauses distinct acyclic empty finished
                    started otherEmpty queued otherQueued beside same
    · rw [empty, waits] at buffers
      cases buffers
  · rcases beside_buffer otherCalm with otherEmpty | ⟨other, others, otherHeld, otherWaits⟩
    · rw [waits, otherEmpty] at buffers
      cases buffers
    · rw [waits, otherWaits] at buffers
      obtain ⟨rfl, same⟩ := List.cons.inj buffers
      rw [advance_delivery held, advance_delivery otherHeld]
      exact ⟨rfl, alike.reader.handOut other, alike.queue, same, alike.started, alike.finished,
        alike.world⟩

end Session
end ShardedStream
