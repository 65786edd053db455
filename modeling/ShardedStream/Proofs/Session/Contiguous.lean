import ShardedStream.Proofs.Assignments.Agree
import ShardedStream.Proofs.Session.Life
import ShardedStream.Proofs.Session.Stance

/-!
No gap and no duplicate.
Over a service that keeps logs, what a reader hands out of a shard is one run of its log from the
position at which the shard was opened, through any passes, closings, failures and lost iterators.
-/

namespace ShardedStream

variable {σ : Type} {service : Service σ} {logs : LogService service}

namespace Reader

variable {reader later : Reader}

/-- Only new shards are opened, each after its entry, at the beginning, or at the newest records. -/
structure Extends (reader : Reader) (move : Tracked → Tracked) (added : List Assignment)
    (later : Reader) : Prop where
  indexed : later.Indexed
  shards : later.shards = reader.shards.map move ++ added.map .ofAssignment
  keeps : ∀ tracked, (move tracked).id = tracked.id
  checkpoint : later.checkpoint = reader.checkpoint
  fresh : ∀ entry ∈ added, entry.shard ∉ reader.ids ∧
    (Assignments.Agrees reader.checkpoint entry ∨ entry.position = .latest)

theorem extends_refl (indexed : reader.Indexed) : Extends reader id [] reader where
  indexed := indexed
  shards := by rw [List.map_id, List.map_nil, List.append_nil]
  keeps := fun _ => rfl
  checkpoint := rfl
  fresh := fun _ member => absurd member List.not_mem_nil

/-- A preparation only opens shards. -/
theorem Prepares.extends {prepared : Reader} {world after : World σ}
    (prepares : reader.Prepares service world (some prepared) after) (indexed : reader.Indexed) :
    ∃ added, Extends reader id added prepared := by
  cases prepares with
  | already _ => exact ⟨[], extends_refl indexed⟩
  | @described shards _ _ _ _ =>
      have tracks := indexed.track
        (Assignments.atStart (.ofShards shards) reader.checkpoint reader.settings.policy)
      refine ⟨(reader.track (Assignments.atStart (.ofShards shards) reader.checkpoint
        reader.settings.policy)).1, tracks.indexed, ?_, fun _ => rfl, ?_, fun entry member => ?_⟩
      · rw [List.map_id]
        exact tracks.shards
      · rw [opening, tracks.rest]
      · exact ⟨(tracks.chosen entry member).2,
          Assignments.atStart_agrees _ _ _ entry (tracks.chosen entry member).1⟩

/-- The decisions of a step agree with the checkpoint. -/
theorem Steps.entries_agree {tracked : Tracked} {world after : World σ} {outcome : Outcome}
    (steps : reader.Steps service tracked world outcome after) :
    ∀ entry ∈ outcome.transition.entries, Assignments.Agrees reader.checkpoint entry := by
  rcases steps.quiet_or_described with ⟨none, _⟩ | ⟨shards, _, _, rfl⟩
  · rw [none]
    exact fun _ member => absurd member List.not_mem_nil
  · intro entry member
    exact Assignments.afterEnd_agrees _ _ _ entry (Assignments.mem_without.mp member).1

/-- An applied step moves its shard into a phase and only opens shards besides. -/
theorem Steps.extends {tracked : Tracked} {world after : World σ} {outcome : Outcome}
    (steps : reader.Steps service tracked world outcome after) (indexed : reader.Indexed)
    (member : tracked ∈ reader.shards) :
    ∃ added, Extends reader
      (fun other => if other.id = tracked.id then
        other.enter (outcome.transition.phase? (tracked.resume reader.checkpoint)) else other)
      added (reader.apply outcome).2 := by
  have follows := follows_apply indexed member steps.shard
  obtain ⟨added, shards, chosen⟩ := follows.shards
  refine ⟨added, follows.indexed, shards, fun other => ?_, follows.checkpoint,
    fun entry here =>
      ⟨(chosen entry here).2, .inl (steps.entries_agree entry (chosen entry here).1)⟩⟩
  split <;> rfl

theorem Extends.openedSince {move : Tracked → Tracked} {added : List Assignment}
    (extending : Extends reader move added later) :
    later.openedSince reader.shards.length = added :=
  openedSince_append extending.shards

end Reader

namespace Session

variable {session later : Session σ} {progress : Progress} {opened : List Assignment}
  {handedOut : List Delivery}

/-- Every shard that was not opened at the newest records stands where its records end. -/
def Stances (logs : LogService service) (session : Session σ) (opened : List Assignment)
    (handedOut : List Delivery) : Prop :=
  ∀ entry ∈ opened, entry.position ≠ .latest →
    ∀ tracked ∈ session.reader.shards, tracked.id = entry.shard →
      Stance logs session.world.service session.reader.checkpoint entry.position tracked
        (recordsOf entry.shard handedOut) (recordsOf entry.shard session.pass.buffer)

/-- A shard that has just been opened stands at its position. -/
theorem stance_ofAssignment {state : σ} {checkpoint : Checkpoint} {entry : Assignment}
    (known : entry.position ≠ .latest)
    (agrees : Assignments.Agrees checkpoint entry ∨ entry.position = .latest) :
    Stance logs state checkpoint entry.position (.ofAssignment entry) [] [] := by
  refine ⟨.inl ⟨rfl, ?_⟩, rfl, .inl ⟨rfl, rfl⟩⟩
  have agrees : entry.position = Assignments.resumeOf checkpoint entry.shard :=
    agrees.resolve_right known
  simp only [Tracked.resume, Tracked.ofAssignment]
  rw [Assignments.resumeOf] at agrees
  cases saved : checkpoint.get? entry.shard with
  | none => rfl
  | some sequence =>
      rw [saved] at agrees
      exact agrees.symm

/-- Shards that are opened besides do not disturb the others. -/
theorem stances_extend {move : Tracked → Tracked} {added : List Assignment}
    (extending : session.reader.Extends move added later.reader)
    (shards : opened.map Assignment.shard = session.reader.ids)
    (known : ∀ delivery ∈ handedOut, delivery.shard ∈ session.reader.ids)
    (waiting : ∀ delivery ∈ later.pass.buffer, delivery.shard ∈ session.reader.ids)
    (moved : ∀ entry ∈ opened, entry.position ≠ .latest →
      ∀ tracked ∈ session.reader.shards, tracked.id = entry.shard →
        Stance logs later.world.service session.reader.checkpoint entry.position (move tracked)
          (recordsOf entry.shard handedOut) (recordsOf entry.shard later.pass.buffer)) :
    Stances logs later (opened ++ later.reader.openedSince session.reader.shards.length)
      handedOut := by
  intro entry member elsewhere tracked here same
  rw [extending.openedSince] at member
  rw [extending.checkpoint]
  -- A new shard has nothing read yet, as everything read so far belongs to the shards before it.
  rcases Reader.opened_cases extending.indexed shards extending.shards extending.keeps member here
    same with ⟨old, was, wasMember, name, rfl⟩ | ⟨new, _, rfl⟩
  · exact moved entry old elsewhere was wasMember name
  · obtain ⟨fresh, agrees⟩ := extending.fresh entry new
    have unread : recordsOf entry.shard handedOut = [] :=
      recordsOf_eq_nil fun delivery handed equal => fresh (equal ▸ known delivery handed)
    have unheld : recordsOf entry.shard later.pass.buffer = [] :=
      recordsOf_eq_nil fun delivery waits equal => fresh (equal ▸ waiting delivery waits)
    rw [unread, unheld]
    exact stance_ofAssignment elsewhere agrees

/-- A record that is handed out moves its shard's entry on to it. -/
theorem stances_handOut {delivery : Delivery} {rest : List Delivery}
    (waits : session.pass.buffer = delivery :: rest)
    (stances : Stances logs session opened handedOut) :
    Stances logs
      { session with
        reader := session.reader.handOut delivery
        pass := { session.pass with buffer := rest } }
      opened (handedOut ++ [delivery]) := by
  intro entry member elsewhere tracked here same
  have stance := stances entry member elsewhere tracked here same
  rw [waits] at stance
  rw [recordsOf_append]
  -- Of the shard of the record one record moves from those that wait to those handed out.
  by_cases own : delivery.shard = entry.shard
  · rw [← own] at stance ⊢
    rw [recordsOf_cons_self] at stance
    rw [recordsOf_cons_self, show recordsOf delivery.shard [] = [] from rfl]
    obtain ⟨place, runs⟩ := stance.phase.runs
    refine ⟨?_, stance.phase.handOut⟩
    have resume : tracked.resume (session.reader.handOut delivery).checkpoint =
        .afterSequence delivery.record.sequence := by
      rw [Tracked.resume, Reader.handOut, Checkpoint.get?_record, if_pos (own.trans same.symm)]
    rw [resume]
    exact .afterLast runs
  · rw [recordsOf_cons_ne _ own] at stance
    rw [recordsOf_cons_ne _ own, show recordsOf entry.shard [] = [] from rfl, List.append_nil]
    have resume : tracked.resume (session.reader.handOut delivery).checkpoint =
        tracked.resume session.reader.checkpoint := by
      rw [Tracked.resume, Tracked.resume, Reader.handOut, Checkpoint.get?_record,
        if_neg fun equal => own (equal.trans same)]
    refine ⟨?_, stance.phase⟩
    rw [resume]
    exact stance.resumes

/-- Shards that are opened while nothing waits are all that changes. -/
theorem stances_open {added : List Assignment}
    (extending : session.reader.Extends id added later.reader)
    (shards : opened.map Assignment.shard = session.reader.ids)
    (known : ∀ delivery ∈ handedOut, delivery.shard ∈ session.reader.ids)
    (empty : session.pass.buffer = []) (buffer : later.pass.buffer = [])
    (outgrows : logs.Outgrows session.world.service later.world.service)
    (stances : Stances logs session opened handedOut) :
    Stances logs later (opened ++ later.reader.openedSince session.reader.shards.length)
      handedOut := by
  refine stances_extend extending shards known ?_ ?_
  · rw [buffer]
    exact fun _ member => absurd member List.not_mem_nil
  · intro entry member elsewhere tracked here same
    rw [buffer, ← empty]
    exact (stances entry member elsewhere tracked here same).mono outgrows

/-- The visited shard moves with the records that it has read, and all others stay. -/
theorem stance_visited {reader : Reader} {tracked other : Tracked} {world after : World σ}
    {outcome : Outcome} {start : Position} {records : List Record} (indexed : reader.Indexed)
    (member : tracked ∈ reader.shards) (here : other ∈ reader.shards) (known : start ≠ .latest)
    (steps : reader.Steps service tracked world outcome after)
    (stance : Stance logs world.service reader.checkpoint start other records []) :
    Stance logs after.service reader.checkpoint start
      (if other.id = tracked.id then
        other.enter (outcome.transition.phase? (tracked.resume reader.checkpoint)) else other)
      records (recordsOf other.id (outcome.records.map (Delivery.mk tracked.id))) := by
  have outgrows := logs.outgrows_of_leads steps.precedes.leads
  by_cases own : other.id = tracked.id
  · obtain rfl := indexed.eq_of_id_eq here member own
    rw [if_pos rfl, recordsOf_own]
    exact ⟨(stance.mono outgrows).resumes, phaseStands_of_steps known steps stance⟩
  · have unheld : recordsOf other.id (outcome.records.map (Delivery.mk tracked.id)) = [] := by
      refine recordsOf_eq_nil fun delivery waits equal => ?_
      obtain ⟨record, _, rfl⟩ := List.mem_map.mp waits
      exact own equal.symm
    rw [if_neg own, unheld]
    exact stance.mono outgrows

/-- A turn leaves every shard where its records end. -/
theorem Turn.stances (turn : Turn service session progress later)
    (indexed : session.reader.Indexed)
    (shards : opened.map Assignment.shard = session.reader.ids)
    (known : ∀ delivery ∈ handedOut, delivery.shard ∈ session.reader.ids)
    (stances : Stances logs session opened handedOut) :
    Stances logs later (opened ++ later.reader.openedSince session.reader.shards.length)
      (handedOut ++ progress.delivery?.toList) := by
  have outgrows := logs.outgrows_of_leads turn.precedes.leads
  cases turn with
  | @handsOut delivery rest waits =>
      have none : (session.reader.handOut delivery).openedSince session.reader.shards.length = [] :=
        (Reader.extends_refl indexed).openedSince
      simp only [none, List.append_nil]
      exact stances_handOut waits stances
  | stays empty silent reader buffer precedes =>
      rw [silent, Option.toList_none, List.append_nil]
      have extending : session.reader.Extends id [] later.reader := by
        rw [reader]
        exact Reader.extends_refl indexed
      exact stances_open extending shards known empty buffer outgrows stances
  | prepares empty prepares became buffer =>
      obtain ⟨added, extending⟩ := prepares.extends indexed
      rw [← became] at extending
      rw [show Progress.moved.delivery?.toList = [] from rfl, List.append_nil]
      exact stances_open extending shards known empty buffer outgrows stances
  | @visits tracked outcome between later empty member steps became buffer served described =>
      obtain ⟨added, extending⟩ := steps.extends indexed member
      rw [← became] at extending
      rw [show Progress.moved.delivery?.toList = [] from rfl, List.append_nil]
      refine stances_extend extending shards known ?_ ?_
      · rw [buffer]
        intro delivery waits
        obtain ⟨record, _, rfl⟩ := List.mem_map.mp waits
        exact List.mem_map_of_mem member
      · intro entry entryMember elsewhere other here same
        have stance := stances entry entryMember elsewhere other here same
        rw [empty, show recordsOf entry.shard [] = [] from rfl] at stance
        rw [buffer, served, ← same]
        rw [← same] at stance
        exact stance_visited indexed member here elsewhere steps stance

/-- A closed pass leaves its shard waiting at the first record that it withheld. -/
theorem close_stances (indexed : session.reader.Indexed) (held : session.Held)
    (stances : Stances logs session opened handedOut) :
    Stances logs (.start session.close.1 session.close.2) opened handedOut := by
  unfold close
  cases buffer : session.pass.buffer with
  | nil =>
      intro entry member elsewhere tracked here same
      have stance := stances entry member elsewhere tracked here same
      rwa [buffer] at stance
  | cons delivery rest =>
      obtain ⟨owner, _, _, own⟩ := held.owner (buffer ▸ List.mem_cons_self)
      rw [buffer] at own
      have shards := indexed.shards_modifyTracked delivery.shard fun tracked =>
        { tracked with
          phase := .waiting (.atSequence delivery.record.sequence)
          start := .atSequence delivery.record.sequence }
      intro entry member elsewhere tracked here same
      change tracked ∈ (session.reader.modifyTracked delivery.shard _).shards at here
      rw [shards] at here
      obtain ⟨was, wasMember, rfl⟩ := List.mem_map.mp here
      have checkpoint : (session.reader.restartAt delivery.shard
          (.atSequence delivery.record.sequence)).checkpoint = session.reader.checkpoint :=
        (session.reader.modifyTracked_rest delivery.shard _).2.1
      by_cases hit : was.id = delivery.shard
      · rw [if_pos hit] at same ⊢
        have stance := stances entry member elsewhere was wasMember same
        have own : delivery.shard = entry.shard := hit.symm.trans same
        rw [buffer, ← own, recordsOf_cons_self] at stance
        simp only [List.head?_cons, start, checkpoint]
        rw [← own]
        exact stance.restartAt
      · rw [if_neg hit] at same ⊢
        have stance := stances entry member elsewhere was wasMember same
        have unheld : recordsOf entry.shard (delivery :: rest) = [] := by
          refine recordsOf_eq_nil fun other waits equal => hit ?_
          rw [same, ← equal, own other waits, own delivery List.mem_cons_self]
        rw [buffer, unheld] at stance
        simp only [List.head?_cons, start, checkpoint]
        exact stance

end Session

namespace Life

/-- At every moment every shard stands where its records end. -/
structure Contiguous (logs : LogService service) (life : Life σ) : Prop where
  sound : life.Sound
  stances : life.session.Stances logs life.opened life.handedOut

theorem perform_contiguous (life : Life σ) (act : Act) (contiguous : life.Contiguous logs) :
    (life.perform service act).Contiguous logs := by
  have sound := contiguous.sound
  refine ⟨sound_run [act] sound, ?_⟩
  cases act with
  | turn =>
      exact (Session.advance_turn sound.indexed).stances sound.indexed sound.opened sound.known
        contiguous.stances
  | close => exact Session.close_stances sound.indexed sound.held contiguous.stances
  | surround clock signal monitor => exact contiguous.stances

theorem contiguous_run (logs : LogService service) (settings : ReaderSettings) (world : World σ)
    (acts : List Act) : ((begin settings world).run service acts).Contiguous logs :=
  run_preserves perform_contiguous acts
    ⟨begin_sound settings world, fun _ member => absurd member List.not_mem_nil⟩

/-- Nothing of a shard that is done waits to be handed out. -/
theorem Sound.unheld_of_done {life : Life σ} (sound : life.Sound) {tracked : Tracked}
    (member : tracked ∈ life.session.reader.shards) (done : tracked.phase = .done) :
    recordsOf tracked.id life.session.pass.buffer = [] := by
  refine recordsOf_eq_nil fun delivery waits same => ?_
  obtain ⟨owner, ownerMember, read, own⟩ := sound.held.owner waits
  rw [sound.indexed.eq_of_id_eq ownerMember member ((own delivery waits).symm.trans same),
    done] at read
  exact read

/--
Through any passes, whether drained, aborted, abandoned or dropped, the records handed out of a
shard that was not opened at the newest ones are one run of its log from the position at which it
was opened, and all the rest of its log once the shard is done.
-/
theorem handed_out_contiguous (logs : LogService service) (settings : ReaderSettings)
    (world : World σ) (acts : List Act) :
    let life := (begin settings world).run service acts
    life.opened.map Assignment.shard = life.session.reader.ids ∧
      ∀ entry ∈ life.opened, entry.position ≠ .latest →
        let log := logs.log life.session.world.service entry.shard
        let handed := recordsOf entry.shard life.handedOut
        (handed = [] ∨ ∃ first, entry.position.StandsAt log first ∧ handed <+: log.drop first) ∧
          (life.session.reader.IsDone entry.shard →
            logs.closed life.session.world.service entry.shard ∧
              ∃ first, entry.position.StandsAt log first ∧ handed = log.drop first) := by
  intro life
  have contiguous := contiguous_run logs settings world acts
  refine ⟨contiguous.sound.opened, ?_⟩
  intro entry member elsewhere log handed
  refine ⟨?_, ?_⟩
  · have known : entry.shard ∈ life.session.reader.ids :=
      contiguous.sound.opened ▸ List.mem_map_of_mem member
    obtain ⟨tracked, here, same⟩ := Reader.mem_ids.mp known
    have stance := contiguous.stances entry member elsewhere tracked here same
    have resumes := stance.resumes
    rw [same] at resumes
    rcases resumes with ⟨none, _⟩ | ⟨_, ⟨first, stands, _, within⟩, _⟩
    · exact .inl none
    · exact .inr ⟨first, stands, within⟩
  · rintro ⟨tracked, here, same, done⟩
    have stance := contiguous.stances entry member elsewhere tracked here same
    have phase := stance.phase
    rw [same, done, ← same, contiguous.sound.unheld_of_done here done, same] at phase
    obtain ⟨⟨first, stands, ends, within⟩, closed⟩ := phase
    rw [List.append_nil] at ends within
    refine ⟨closed, first, stands, within.eq_of_length ?_⟩
    rw [List.length_drop]
    omega

/-- These are the records of a shard that is closed. -/
def twoRecords : List Record := [⟨"1", "key", [], none⟩, ⟨"2", "key", [], none⟩]

/-- The tokens are the places of the log; a position that stands at none of them is refused. -/
def twoRecordToken : Position → Except Fault Token
  | .trimHorizon => .ok "0"
  | .latest => .ok "2"
  | .afterSequence sequence =>
    if sequence = "1" then .ok "1" else if sequence = "2" then .ok "2"
    else .error (.invalidArgument "sequence")
  | .atSequence sequence =>
    if sequence = "1" then .ok "0" else if sequence = "2" then .ok "1"
    else .error (.invalidArgument "sequence")

/-- Each read is given the rest of the log, and only the first of them can read on. -/
def twoRecordBatch (token : Token) : Except Fault Batch :=
  if token = "0" then .ok ⟨twoRecords, some "2", 0⟩
  else if token = "1" then .ok ⟨twoRecords.drop 1, none, 0⟩
  else if token = "2" then .ok Batch.ended
  else .error (.invalidArgument "token")

/-- This service has the closed shard and no other one. -/
def twoRecordService : Service Unit where
  call
    | .listShards _, _, state => (⟨.ok [⟨"A", none, "1", some "2"⟩], 0⟩, state)
    | .openIterator _ shard position, _, state =>
      (⟨if shard = "A" then twoRecordToken position else .error (.invalidArgument "shard"), 0⟩,
        state)
    | .readRecords token _, _, state => (⟨twoRecordBatch token, 0⟩, state)

/-- A token is the place that it stands at. -/
theorem twoRecordToken_stands {position : Position} {token : Token}
    (opened : twoRecordToken position = .ok token) (known : position ≠ .latest) :
    ∃ place, position.StandsAt twoRecords place ∧ ["0", "1", "2"][place]? = some token := by
  cases position with
  | trimHorizon => exact ⟨0, rfl, congrArg some (Except.ok.inj opened)⟩
  | latest => exact absurd rfl known
  | afterSequence sequence =>
      simp only [twoRecordToken] at opened
      split at opened
      next first =>
        exact ⟨1, ⟨0, _, rfl, first.symm, rfl⟩, congrArg some (Except.ok.inj opened)⟩
      split at opened
      next second =>
        exact ⟨2, ⟨1, _, rfl, second.symm, rfl⟩, congrArg some (Except.ok.inj opened)⟩
      cases opened
  | atSequence sequence =>
      simp only [twoRecordToken] at opened
      split at opened
      next first => exact ⟨0, ⟨_, rfl, first.symm⟩, congrArg some (Except.ok.inj opened)⟩
      split at opened
      next second => exact ⟨1, ⟨_, rfl, second.symm⟩, congrArg some (Except.ok.inj opened)⟩
      cases opened

/-- A read returns the rest of the log. -/
theorem twoRecordBatch_rest {place : Nat} {token : Token} {batch : Batch}
    (stands : ["0", "1", "2"][place]? = some token) (read : twoRecordBatch token = .ok batch) :
    batch.records = twoRecords.drop place ∧ place ≤ 2 ∧
      ∀ next, batch.next = some next → next = "2" := by
  match place with
  | 0 =>
      obtain rfl := Option.some.inj stands
      obtain rfl := Except.ok.inj read
      exact ⟨rfl, by decide, fun next here => (Option.some.inj here).symm⟩
  | 1 =>
      obtain rfl := Option.some.inj stands
      obtain rfl := Except.ok.inj read
      exact ⟨rfl, by decide, fun next here => nomatch here⟩
  | 2 =>
      obtain rfl := Option.some.inj stands
      obtain rfl := Except.ok.inj read
      exact ⟨rfl, by decide, fun next here => nomatch here⟩
  | place + 3 => cases stands

/-- The service keeps the two records as the log of its shard. -/
def twoRecordLogs : LogService twoRecordService where
  log _ shard := if shard = "A" then twoRecords else []
  closed _ shard := shard = "A"
  stands _ token shard place := shard = "A" ∧ ["0", "1", "2"][place]? = some token
  distinct state shard := by
    split <;> decide
  grows request time state shard := List.prefix_rfl
  staysClosed request time state shard closed := ⟨closed, rfl⟩
  keepsTokens request time state token shard place stands := stands
  opens stream shard position time state token opened known := by
    simp only [twoRecordService] at opened
    split at opened
    next own =>
      obtain ⟨place, stands, here⟩ := twoRecordToken_stands opened known
      exact ⟨place, by rwa [if_pos own], own, here⟩
    next => cases opened
  opensKnown stream shard position time state fault refused := by
    simp only [twoRecordService, twoRecordToken] at refused
    grind [Fault.isNotFound]
  reads token limit time state batch shard place read stands := by
    obtain ⟨rfl, stands⟩ := stands
    obtain ⟨records, within, last⟩ := twoRecordBatch_rest stands read
    rw [if_pos rfl, records]
    refine ⟨List.prefix_rfl, ?_⟩
    have ends : place + (twoRecords.drop place).length = 2 := by
      rw [List.length_drop]
      exact Nat.add_sub_of_le within
    rw [ends]
    split
    next next here =>
      obtain rfl := last next here
      exact ⟨rfl, rfl⟩
    next => exact ⟨rfl, rfl⟩
  readsKnown token limit time state fault refused := by
    simp only [twoRecordService, twoRecordBatch] at refused
    grind [Fault.isNotFound]

/--
A pass is dropped after the first of two records that it has read; the next one goes back to the
second record, and the shard is done with the whole log handed out once.
-/
theorem reread_contiguous :
    let life := (begin (.ofStream "stream") (.start () .off)).run twoRecordService
      [.turn, .turn, .turn, .turn, .close, .turn, .turn, .turn, .turn]
    life.opened = [⟨"A", .trimHorizon⟩] ∧ life.session.reader.IsDone "A" ∧
      recordsOf "A" life.handedOut = twoRecords := by
  intro life
  have opened : life.opened = [⟨"A", .trimHorizon⟩] := by decide +kernel
  have shards : life.session.reader.shards =
      [⟨"A", .done, .trimHorizon⟩] := by
    decide +kernel
  have done : life.session.reader.IsDone "A" := by
    rw [Reader.IsDone, shards]
    exact ⟨_, List.mem_cons_self, rfl, rfl⟩
  have contiguous := (handed_out_contiguous twoRecordLogs (.ofStream "stream") (.start () .off)
    [.turn, .turn, .turn, .turn, .close, .turn, .turn, .turn, .turn]).2 ⟨"A", .trimHorizon⟩
    (opened ▸ List.mem_cons_self) (by decide)
  obtain ⟨_, first, stands, whole⟩ := contiguous.2 done
  refine ⟨opened, done, ?_⟩
  rw [show first = 0 from stands] at whole
  exact whole

end Life
end ShardedStream
