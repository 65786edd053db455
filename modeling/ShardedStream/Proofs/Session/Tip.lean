import Mathlib.Data.List.Induction
import ShardedStream.Proofs.Reader.Asking
import ShardedStream.Proofs.Session.Contiguous
import ShardedStream.Script

/-!
Shards that are opened at the tip of the stream.
A record that has been fetched ties its shard to a place of its own, and the tip is not asked for
again. An empty batch does not: when the iterator after it expires, the shard jumps to the tip.
-/

namespace ShardedStream

variable {σ : Type} {service : Service σ}

/-- A restart only moves its own shard. -/
theorem Reader.restartAt_extends {reader : Reader} (indexed : reader.Indexed) (shard : ShardId)
    (position : Position) :
    Extends reader (fun tracked => if tracked.id = shard then
      { tracked with phase := .waiting position, start := position } else tracked) []
      (reader.restartAt shard position) where
  indexed := indexed.modifyTracked shard fun _ => rfl
  shards := by
    rw [restartAt, indexed.shards_modifyTracked, List.map_nil, List.append_nil]
  keeps := fun tracked => by split <;> rfl
  checkpoint := (reader.modifyTracked_rest shard _).2.1
  fresh := fun _ member => absurd member List.not_mem_nil

namespace Session

variable {session later : Session σ} {progress : Progress} {shard : ShardId}

/-- A turn puts on record what its reader may ask, and nothing else. -/
theorem advance_asks (service : Service σ) (indexed : session.reader.Indexed) :
    ∃ made, (session.advance service).2.world.exchanges = session.world.exchanges ++ made ∧
      ∀ exchange ∈ made, session.reader.MayAsk exchange.request := by
  have silent : ∀ {Allowed : Request → Prop}, ∃ made,
      session.world.exchanges = session.world.exchanges ++ made ∧
        ∀ exchange ∈ made, Allowed exchange.request :=
    ⟨[], (List.append_nil _).symm, fun _ member => absurd member List.not_mem_nil⟩
  unfold advance
  split
  · exact silent
  · split
    · exact silent
    · split
      · have asked := World.converse_asks service session.plan session.reader.asks_prepare
          session.world
        unfold enter
        simp only [plan] at asked ⊢
        generalize session.world.converse service session.reader.settings.retry.plan
          session.reader.prepare = conversed at asked ⊢
        obtain ⟨answer, world⟩ := conversed
        rcases answer with _ | error | _ | reader
        · exact asked
        · exact asked
        · exact asked
        · exact asked
      · split
        · exact silent
        · rename_i next rest filled
          have asked := World.converse_asks service session.plan (Reader.asks_step indexed next)
            session.world
          unfold visit
          simp only [plan] at asked ⊢
          generalize session.world.converse service session.reader.settings.retry.plan
            (session.reader.step next) = conversed at asked ⊢
          obtain ⟨answer, world⟩ := conversed
          rcases answer with _ | error | outcome
          · exact asked
          · exact asked
          · simp only [absorb, World.reportAll_exchanges]
            exact asked

/-- Records of the shard wait to be handed out. -/
def Withholds (session : Session σ) (shard : ShardId) : Prop :=
  ∃ delivery ∈ session.pass.buffer, delivery.shard = shard

/-- The shard has a place of its own to go back to, or it will have one when its records are handed
out or given back. -/
structure Anchored (session : Session σ) (shard : ShardId) : Prop where
  known : shard ∈ session.reader.ids
  elsewhere : ∀ tracked ∈ session.reader.shards, tracked.id = shard →
    tracked.phase ≠ .waiting .latest
  placed : ∀ tracked ∈ session.reader.shards, tracked.id = shard →
    tracked.resume session.reader.checkpoint ≠ .latest ∨ session.Withholds shard

/-- A shard whose records wait is anchored. -/
theorem Withholds.anchored (indexed : session.reader.Indexed) (held : session.Held)
    (withholds : session.Withholds shard) : session.Anchored shard := by
  obtain ⟨delivery, waits, rfl⟩ := withholds
  obtain ⟨tracked, member, read, own⟩ := held.owner waits
  have same := own delivery waits
  refine ⟨Reader.mem_ids.mpr ⟨tracked, member, same.symm⟩, fun other here name => ?_,
    fun _ _ _ => .inr ⟨delivery, waits, rfl⟩⟩
  rw [indexed.eq_of_id_eq here member (name.trans same)]
  intro waiting
  rw [waiting] at read
  exact read

/-- While nothing waits, an anchored shard has its place already. -/
theorem Anchored.settled (anchored : session.Anchored shard) (empty : session.pass.buffer = [])
    (tracked : Tracked) (member : tracked ∈ session.reader.shards) (same : tracked.id = shard) :
    tracked.resume session.reader.checkpoint ≠ .latest := by
  refine (anchored.placed tracked member same).resolve_right ?_
  rintro ⟨delivery, waits, _⟩
  rw [empty] at waits
  exact absurd waits List.not_mem_nil

/-- While nothing waits, an anchored shard does not go back to the tip. -/
theorem Anchored.leaves_latest (indexed : session.reader.Indexed)
    (anchored : session.Anchored shard) (empty : session.pass.buffer = []) :
    session.reader.resumesAt? shard ≠ some .latest := by
  obtain ⟨tracked, member, rfl⟩ := Reader.mem_ids.mp anchored.known
  rw [Reader.resumesAt?_eq indexed member]
  exact fun resumes => anchored.settled empty tracked member rfl (Option.some.inj resumes)

/-- Shards that are opened besides do not touch an anchored one. -/
theorem Anchored.extend {move : Tracked → Tracked} {added : List Assignment}
    (anchored : session.Anchored shard)
    (extending : session.reader.Extends move added later.reader)
    (moved : ∀ tracked ∈ session.reader.shards, tracked.id = shard →
      (move tracked).phase ≠ .waiting .latest ∧
        (move tracked).resume session.reader.checkpoint ≠ .latest) :
    later.Anchored shard := by
  have old : ∀ tracked ∈ later.reader.shards, tracked.id = shard →
      ∃ before ∈ session.reader.shards, before.id = shard ∧ move before = tracked := by
    intro tracked member same
    rw [extending.shards] at member
    rcases List.mem_append.mp member with kept | new
    · obtain ⟨before, here, rfl⟩ := List.mem_map.mp kept
      exact ⟨before, here, (extending.keeps before).symm.trans same, rfl⟩
    · obtain ⟨entry, chosen, rfl⟩ := List.mem_map.mp new
      have name : entry.shard = shard := same
      exact absurd (name.symm ▸ anchored.known) (extending.fresh entry chosen).1
  refine ⟨?_, fun tracked member same => ?_, fun tracked member same => .inl ?_⟩
  · obtain ⟨tracked, member, same⟩ := Reader.mem_ids.mp anchored.known
    refine Reader.mem_ids.mpr ⟨move tracked, ?_, (extending.keeps tracked).trans same⟩
    rw [extending.shards]
    exact List.mem_append_left _ (List.mem_map_of_mem member)
  · obtain ⟨before, here, name, rfl⟩ := old tracked member same
    exact (moved before here name).1
  · obtain ⟨before, here, name, rfl⟩ := old tracked member same
    rw [extending.checkpoint]
    exact (moved before here name).2

/-- A record that is handed out becomes the place of its shard. -/
theorem Anchored.handOut {delivery : Delivery} {rest : List Delivery}
    (anchored : session.Anchored shard) (waiting : session.pass.buffer = delivery :: rest) :
    Anchored { session with
      reader := session.reader.handOut delivery
      pass := { session.pass with buffer := rest } } shard := by
  refine ⟨anchored.known, anchored.elsewhere, fun tracked member same => ?_⟩
  simp only [Reader.handOut, Tracked.resume, Checkpoint.get?_record]
  by_cases own : delivery.shard = tracked.id
  · rw [if_pos own]
    exact .inl (by simp)
  · rw [if_neg own]
    refine (anchored.placed tracked member same).imp_right ?_
    rintro ⟨other, waits, name⟩
    rw [waiting] at waits
    rcases List.mem_cons.mp waits with rfl | later
    · exact absurd (name.trans same.symm) own
    · exact ⟨other, later, name⟩

/-- A turn leaves an anchored shard anchored. -/
theorem Turn.anchored (turn : Turn service session progress later)
    (indexed : session.reader.Indexed) (anchored : session.Anchored shard) :
    later.Anchored shard := by
  cases turn with
  | handsOut waiting => exact anchored.handOut waiting
  | stays empty _ reader _ _ =>
      refine ⟨reader ▸ anchored.known, ?_, ?_⟩
      · rw [reader]
        exact anchored.elsewhere
      · rw [reader]
        exact fun tracked member same => .inl (anchored.settled empty tracked member same)
  | prepares empty prepares became _ =>
      obtain ⟨added, extending⟩ := prepares.extends indexed
      rw [← became] at extending
      exact anchored.extend extending fun tracked member same =>
        ⟨anchored.elsewhere tracked member same, anchored.settled empty tracked member same⟩
  | @visits visited outcome between _ empty member steps became _ _ _ =>
      obtain ⟨added, extending⟩ := steps.extends indexed member
      rw [← became] at extending
      refine anchored.extend extending fun tracked here same => ?_
      have place := anchored.settled empty tracked here same
      split
      · rename_i own
        obtain rfl := indexed.eq_of_id_eq here member own
        refine ⟨?_, place⟩
        cases moved : outcome.transition.phase? (tracked.resume session.reader.checkpoint) with
        | none => exact anchored.elsewhere tracked here same
        | some phase =>
            rintro (rfl : phase = _)
            cases transition : outcome.transition with
            | expired =>
                rw [transition] at moved
                exact place (Phase.waiting.inj (Option.some.inj moved))
            | throttled token =>
                rw [transition] at moved
                cases token <;> cases moved
            | _ =>
                rw [transition] at moved
                cases moved
      · exact ⟨anchored.elsewhere tracked here same, place⟩

/-- Records that are given back leave their shard at the first of them. -/
theorem Anchored.close (indexed : session.reader.Indexed) (held : session.Held)
    (anchored : session.Anchored shard) :
    (start session.close.1 session.close.2).Anchored shard := by
  unfold Session.close
  cases buffer : session.pass.buffer with
  | nil =>
      have extending : session.reader.Extends id [] (start session.reader session.world).reader :=
        Reader.extends_refl indexed
      exact anchored.extend extending fun tracked member same =>
        ⟨anchored.elsewhere tracked member same, anchored.settled buffer tracked member same⟩
  | cons delivery rest =>
      have extending : session.reader.Extends _ [] (start (session.reader.restartAt
          delivery.shard (.atSequence delivery.record.sequence)) session.world).reader :=
        Reader.restartAt_extends indexed _ _
      refine anchored.extend extending fun tracked member same => ?_
      split
      · refine ⟨by simp, ?_⟩
        unfold Tracked.resume
        split <;> simp
      · rename_i other
        refine ⟨anchored.elsewhere tracked member same,
          (anchored.placed tracked member same).resolve_right ?_⟩
        -- All the records that wait are those of the shard that is restarted.
        rintro ⟨waiting, waits, name⟩
        obtain ⟨owner, _, _, own⟩ := held.owner waits
        refine other ?_
        rw [same, ← name, own waiting waits, own delivery (buffer ▸ List.mem_cons_self)]

end Session

namespace Life

variable {life : Life σ} {shard : ShardId}

/-- An anchored shard stays anchored whatever happens. -/
theorem anchored_run (acts : List Act) (sound : life.Sound)
    (anchored : life.session.Anchored shard) :
    (life.run service acts).session.Anchored shard := by
  have kept : ∀ (life : Life σ) act, life.Sound ∧ life.session.Anchored shard →
      (life.perform service act).Sound ∧ (life.perform service act).session.Anchored shard := by
    rintro life act ⟨sound, anchored⟩
    refine ⟨sound_run [act] sound, ?_⟩
    cases act with
    | turn => exact (Session.advance_turn sound.indexed).anchored sound.indexed anchored
    | close => exact anchored.close sound.indexed sound.held
    | surround clock signal monitor =>
        exact ⟨anchored.known, anchored.elsewhere, anchored.placed⟩
  exact (run_preserves kept acts ⟨sound, anchored⟩).2

/-- One act asks for no iterator of an anchored shard at the tip. -/
theorem perform_calls (service : Service σ) (sound : life.Sound)
    (anchored : life.session.Anchored shard) (act : Act) :
    ∃ later, (life.perform service act).session.world.calls =
        life.session.world.calls ++ later ∧
      ∀ call ∈ later, ∀ stream, call.2 ≠ .openIterator stream shard .latest := by
  have silent : ∃ later, life.session.world.calls = life.session.world.calls ++ later ∧
      ∀ call ∈ later, ∀ stream, call.2 ≠ .openIterator stream shard .latest :=
    ⟨[], (List.append_nil _).symm, fun _ member => absurd member List.not_mem_nil⟩
  cases act with
  | turn =>
      obtain ⟨made, exchanges, among⟩ := Session.advance_asks service sound.indexed
      refine ⟨made.flatMap Exchange.calls, ?_, fun call member stream same => ?_⟩
      · simp only [perform, turn, World.calls, exchanges, List.flatMap_append]
      · obtain ⟨exchange, own, here⟩ := List.mem_flatMap.mp member
        obtain ⟨attempt, _, rfl⟩ := List.mem_map.mp here
        obtain ⟨tracked, known, name, waiting⟩ := among exchange own stream shard .latest same
        exact anchored.elsewhere tracked known name waiting
  | close =>
      simp only [perform, close, Session.start, Session.close_world]
      exact silent
  | surround clock signal monitor => exact silent

/-- No iterator of an anchored shard is ever asked for at the tip. -/
theorem run_calls (acts : List Act) (sound : life.Sound)
    (anchored : life.session.Anchored shard) :
    ∃ later, (life.run service acts).session.world.calls = life.session.world.calls ++ later ∧
      ∀ call ∈ later, ∀ stream, call.2 ≠ .openIterator stream shard .latest := by
  induction acts generalizing life with
  | nil => exact ⟨[], (List.append_nil _).symm, fun _ member => absurd member List.not_mem_nil⟩
  | cons act acts inductionHypothesis =>
      obtain ⟨first, before, elsewhere⟩ := perform_calls service sound anchored act
      have soundLater : (life.perform service act).Sound := sound_run [act] sound
      obtain ⟨rest, after, further⟩ := inductionHypothesis soundLater
        (anchored_run [act] sound anchored)
      refine ⟨first ++ rest, ?_, fun call member => ?_⟩
      · rw [run_cons, after, before, List.append_assoc]
      · rcases List.mem_append.mp member with early | late
        · exact elsewhere call early
        · exact further call late

/-- At some moment of this life a record of the shard had been fetched and not handed out. -/
def Fetched (service : Service σ) (settings : ReaderSettings) (world : World σ)
    (acts : List Act) (shard : ShardId) : Prop :=
  ∃ early rest, acts = early ++ rest ∧
    ((begin settings world).run service early).session.Withholds shard

/-- A shard of which a record has been fetched is anchored from then on. -/
theorem Fetched.anchored {settings : ReaderSettings} {world : World σ} {acts : List Act}
    (fetched : Fetched service settings world acts shard) :
    ((begin settings world).run service acts).session.Anchored shard := by
  obtain ⟨early, rest, rfl, withholds⟩ := fetched
  have sound : ((begin settings world).run service early).Sound :=
    sound_run early (begin_sound settings world)
  rw [run_append]
  exact anchored_run rest sound (withholds.anchored sound.indexed sound.held)

/-- The shard starts where it was opened, and its entry is the one of the settings. -/
structure Untouched (settings : ReaderSettings) (shard : ShardId) (life : Life σ) : Prop where
  starts : ∀ tracked ∈ life.session.reader.shards, tracked.id = shard →
    ⟨shard, tracked.start⟩ ∈ life.opened
  entry : life.session.reader.checkpoint.get? shard = settings.checkpoint.get? shard

/-- Shards that are opened besides leave an untouched one untouched. -/
theorem Untouched.extend {settings : ReaderSettings} {later : Life σ}
    {move : Tracked → Tracked} {added : List Assignment}
    (untouched : life.Untouched settings shard)
    (extending : life.session.reader.Extends move added later.session.reader)
    (opened : later.opened = life.opened ++ added)
    (stays : ∀ tracked : Tracked, tracked.id = shard → (move tracked).start = tracked.start) :
    later.Untouched settings shard := by
  refine ⟨fun tracked member same => ?_, by rw [extending.checkpoint, untouched.entry]⟩
  rw [extending.shards] at member
  rw [opened]
  rcases List.mem_append.mp member with kept | new
  · obtain ⟨before, here, rfl⟩ := List.mem_map.mp kept
    have name := (extending.keeps before).symm.trans same
    rw [stays before name]
    exact List.mem_append_left _ (untouched.starts before here name)
  · obtain ⟨entry, chosen, rfl⟩ := List.mem_map.mp new
    have name : entry.shard = shard := same
    subst name
    exact List.mem_append_right _ chosen

/-- An untouched shard goes back to the tip as long as it was opened there and had no entry. -/
theorem Untouched.resumesAt?_latest_iff {settings : ReaderSettings} (sound : life.Sound)
    (untouched : life.Untouched settings shard) :
    life.session.reader.resumesAt? shard = some .latest ↔
      ⟨shard, .latest⟩ ∈ life.opened ∧ settings.checkpoint.get? shard = none := by
  obtain ⟨starts, entry⟩ := untouched
  constructor
  · intro resumes
    obtain ⟨tracked, found, resume⟩ := Option.map_eq_some_iff.mp resumes
    obtain ⟨member, rfl⟩ := sound.indexed.tracked?_eq_some_iff.mp found
    cases saved : life.session.reader.checkpoint.get? tracked.id with
    | some sequence =>
        rw [saved] at resume
        cases resume
    | none =>
        rw [saved] at resume
        exact ⟨resume ▸ starts tracked member rfl, entry ▸ saved⟩
  · rintro ⟨opened, unsaved⟩
    have known : shard ∈ life.session.reader.ids :=
      sound.opened ▸ List.mem_map_of_mem opened
    obtain ⟨tracked, member, rfl⟩ := Reader.mem_ids.mp known
    have distinct : (life.opened.map Assignment.shard).Nodup :=
      sound.opened ▸ sound.indexed.distinct
    have same : (⟨tracked.id, tracked.start⟩ : Assignment) = ⟨tracked.id, .latest⟩ :=
      List.inj_on_of_nodup_map distinct (starts tracked member rfl) opened rfl
    rw [Reader.resumesAt?_eq sound.indexed member, Tracked.resume, entry, unsaved]
    exact congrArg some (Assignment.mk.inj same).2

/-- Without records of its own a shard stays untouched. -/
theorem perform_untouched {settings : ReaderSettings} (sound : life.Sound)
    (nothing : ¬ life.session.Withholds shard) (untouched : life.Untouched settings shard)
    (act : Act) : (life.perform service act).Untouched settings shard := by
  cases act with
  | turn =>
      have turn : Session.Turn service life.session _ _ := Session.advance_turn sound.indexed
      simp only [perform, Life.turn]
      generalize life.session.advance service = advanced at turn
      obtain ⟨progress, later⟩ := advanced
      simp only at turn ⊢
      cases turn with
      | @handsOut delivery rest waiting =>
          have other : delivery.shard ≠ shard := fun same =>
            nothing ⟨delivery, waiting ▸ List.mem_cons_self, same⟩
          refine ⟨fun tracked member same =>
            List.mem_append_left _ (untouched.starts tracked member same), ?_⟩
          rw [← untouched.entry]
          exact (Checkpoint.get?_record _ _ _ _).trans (if_neg other)
      | stays _ _ reader _ _ =>
          refine ⟨fun tracked member same => ?_, reader ▸ untouched.entry⟩
          exact List.mem_append_left _ (untouched.starts tracked (reader ▸ member) same)
      | prepares _ prepares became _ =>
          obtain ⟨added, extending⟩ := prepares.extends sound.indexed
          rw [← became] at extending
          exact untouched.extend extending (by rw [extending.openedSince]) fun _ _ => rfl
      | visits _ member steps became _ _ _ =>
          obtain ⟨added, extending⟩ := steps.extends sound.indexed member
          rw [← became] at extending
          exact untouched.extend extending (by rw [extending.openedSince]) fun _ _ => by
            split <;> rfl
  | close =>
      simp only [perform, Life.close, Session.start]
      unfold Session.close
      cases buffer : life.session.pass.buffer with
      | nil => exact ⟨untouched.starts, untouched.entry⟩
      | cons delivery rest =>
          have other : delivery.shard ≠ shard := fun same =>
            nothing ⟨delivery, buffer ▸ List.mem_cons_self, same⟩
          have extending := Reader.restartAt_extends sound.indexed delivery.shard
            (.atSequence delivery.record.sequence)
          refine untouched.extend extending (List.append_nil _).symm fun tracked same => ?_
          rw [if_neg fun own => other (own.symm.trans same)]
  | surround clock signal monitor => exact ⟨untouched.starts, untouched.entry⟩

/-- Until a record of it has been fetched, a shard starts where it was opened. -/
theorem untouched_run (settings : ReaderSettings) (world : World σ) (acts : List Act)
    (unfetched : ¬ Fetched service settings world acts shard) :
    ((begin settings world).run service acts).Untouched settings shard := by
  induction acts using List.reverseRecOn with
  | nil => exact ⟨fun _ member => absurd member List.not_mem_nil, rfl⟩
  | append_singleton acts act inductionHypothesis =>
      have sound : ((begin settings world).run service acts).Sound :=
        sound_run acts (begin_sound settings world)
      have before : ¬ Fetched service settings world acts shard := by
        rintro ⟨early, rest, rfl, withholds⟩
        exact unfetched ⟨early, rest ++ [act], by rw [List.append_assoc], withholds⟩
      rw [run_append]
      exact perform_untouched sound (fun withholds => unfetched ⟨acts, [act], rfl, withholds⟩)
        (inductionHypothesis before) act

/--
A shard goes back to the tip exactly as long as it was opened there, had no entry, and no record of
it has been fetched, however many empty batches it has been through. Once one has been, no iterator
of the shard is ever asked for at the tip.
-/
theorem tip_left_by_records (service : Service σ) (settings : ReaderSettings)
    (world : World σ) (acts : List Act) (shard : ShardId) :
    (((begin settings world).run service acts).session.pass.buffer = [] →
      (((begin settings world).run service acts).session.reader.resumesAt? shard =
          some .latest ↔
        ⟨shard, .latest⟩ ∈ ((begin settings world).run service acts).opened ∧
          settings.checkpoint.get? shard = none ∧
          ¬ Fetched service settings world acts shard)) ∧
    (Fetched service settings world acts shard → ∀ more, ∃ later,
      (((begin settings world).run service acts).run service more).session.world.calls =
          ((begin settings world).run service acts).session.world.calls ++ later ∧
        ∀ call ∈ later, ∀ stream, call.2 ≠ .openIterator stream shard .latest) := by
  have sound : ((begin settings world).run service acts).Sound :=
    sound_run acts (begin_sound settings world)
  have untouched : ¬ Fetched service settings world acts shard →
      ((begin settings world).run service acts).Untouched settings shard :=
    untouched_run settings world acts
  have anchored : Fetched service settings world acts shard →
      ((begin settings world).run service acts).session.Anchored shard := Fetched.anchored
  generalize (begin settings world).run service acts = life at sound untouched anchored ⊢
  refine ⟨fun empty => ?_, fun fetched more => run_calls more sound (anchored fetched)⟩
  by_cases fetched : Fetched service settings world acts shard
  · exact iff_of_false ((anchored fetched).leaves_latest sound.indexed empty)
      fun ⟨_, _, unfetched⟩ => unfetched fetched
  · rw [(untouched fetched).resumesAt?_latest_iff sound, and_iff_left fetched]

/-- The newest records of the stream are read, with no entry for any shard. -/
def tipSettings : ReaderSettings := { ReaderSettings.ofStream "stream" with policy := .newest }

/-- The shard has nothing new at first, and then its iterator expires before it has a record. -/
def quietService : Script :=
  (Script.describing [⟨"A", none, "100", none⟩]).queueBatches "A"
    [.now (.ok ⟨[], true, 0⟩), .now (.error .expiredIterator),
      .now (.ok ⟨[⟨"110", "key", [], none⟩], true, 0⟩)]

/-- An empty batch has been read from the tip and applied, and the tip is asked for again. -/
theorem tip_asked_again :
    let first := (begin tipSettings (.start quietService .off)).run Script.service
      [.turn, .turn, .turn, .close]
    let last := first.run Script.service [.turn, .turn, .turn, .close, .turn, .turn]
    first.opened = [⟨"A", .latest⟩] ∧
      first.session.world.calls = [(0, .listShards "stream"),
        (0, .openIterator "stream" "A" .latest), (0, .readRecords "A-iterator-0" 100)] ∧
      first.session.reader.lag["A"]? = some 0 ∧
      ¬ ∃ later, last.session.world.calls = first.session.world.calls ++ later ∧
        ∀ call ∈ later, ∀ stream, call.2 ≠ .openIterator stream "A" .latest := by
  intro first last
  have calls : last.session.world.calls = first.session.world.calls ++
      [(0, .readRecords "A-iterator-1" 100), (0, .openIterator "stream" "A" .latest),
        (0, .readRecords "A-iterator-2" 100)] := by
    decide +kernel
  refine ⟨by decide +kernel, by decide +kernel, by decide +kernel, ?_⟩
  rintro ⟨later, same, elsewhere⟩
  rw [calls] at same
  have asked : (0, .openIterator "stream" "A" .latest) ∈ later :=
    List.append_cancel_left same ▸ List.mem_cons_of_mem _ List.mem_cons_self
  exact elsewhere _ asked "stream" rfl

/-- The record that is fetched at last is given back, and the tip is left for good. -/
theorem quietService_left :
    let acts : List Act := [.turn, .turn, .turn, .close, .turn, .turn, .turn, .close,
      .turn, .turn, .close]
    let life := (begin tipSettings (.start quietService .off)).run Script.service acts
    life.session.pass.buffer = [] ∧
      (life.session.reader.resumesAt? "A" = some .latest ↔
        ⟨"A", .latest⟩ ∈ life.opened ∧ tipSettings.checkpoint.get? "A" = none ∧
          ¬ Fetched Script.service tipSettings (.start quietService .off) acts "A") ∧
      Fetched Script.service tipSettings (.start quietService .off) acts "A" ∧
      ∀ more, ∃ later, (life.run Script.service more).session.world.calls =
          life.session.world.calls ++ later ∧
        ∀ call ∈ later, ∀ stream, call.2 ≠ .openIterator stream "A" .latest := by
  intro acts life
  have empty : life.session.pass.buffer = [] := by decide +kernel
  have fetched : Fetched Script.service tipSettings (.start quietService .off) acts "A" := by
    refine ⟨[.turn, .turn, .turn, .close, .turn, .turn, .turn, .close, .turn, .turn], [.close],
      rfl, ⟨"A", ⟨"110", "key", [], none⟩⟩, ?_, rfl⟩
    decide +kernel
  have whole := tip_left_by_records Script.service tipSettings (.start quietService .off) acts "A"
  exact ⟨empty, whole.1 empty, fetched, whole.2 fetched⟩

end Life
end ShardedStream
