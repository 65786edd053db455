import ShardedStream.Proofs.Script.Beside
import ShardedStream.Proofs.Script.Turns
import ShardedStream.Proofs.Session.Stance

/-!
Trouble stays in its line of descent.
Two scripts that differ in the replies of one shard are read alike beside it and the shards below
it, pass by pass, whatever the replies of these are, as long as none of them ends a pass.
-/

namespace ShardedStream

open Script
open World (SameFor)

variable {shards : List Shard} {settings : ReaderSettings} {aside : ShardId → Bool}

namespace Session

/-- The session knows the one list of shards, its troubled shards cannot end a pass, and the pauses
of its operations are alike. -/
structure Guarded (aside : ShardId → Bool) (shards : List Shard) (settings : ReaderSettings)
    (session : Session Script) : Prop where
  steady : session.Steady shards settings
  confines : session.world.service.Confines aside shards
  pauses : session.reader.settings.retry.PausesAlike

variable {first second session later otherLater : Session Script} {turns otherTurns : Nat}
  {deliveries otherDeliveries : List Delivery} {error otherError : Option ReaderError}

theorem Guarded.advance (guarded : session.Guarded aside shards settings)
    (distinct : (shards.map Shard.id).Nodup) (acyclic : (Lineage.ofShards shards).Acyclic) :
    (session.advance service).2.Guarded aside shards settings := by
  obtain ⟨only, keeps⟩ := guarded.steady.regular.advances.keeps
  have indexed := guarded.steady.regular.indexed
  have turn : Turn service session _ _ := advance_turn indexed
  exact ⟨guarded.steady.advance distinct acyclic, guarded.confines.keep keeps,
    turn.settings indexed ▸ guarded.pauses⟩

/-- No records wait when a turn ends the pass. -/
theorem Regular.buffer_of_last {names : ShardId → Token → Prop} {progress : Progress}
    (regular : session.Regular names) (advanced : session.advance service = (progress, later))
    (last : progress = .ended ∨ ∃ error, progress = .failed error) : later.pass.buffer = [] := by
  have advances := regular.advances
  rw [advanced] at advances
  cases advances with
  | stays empty _ => exact empty
  | drained empty _ _ _ => exact empty
  | unpreparable empty _ _ _ _ _ => exact empty
  | fails empty _ _ _ _ _ => exact empty
  | _ => rcases last with ended | ⟨_, failed⟩ <;> contradiction

/-- A drained pass leaves the session guarded, and no records wait. -/
theorem Guarded.drain (guarded : session.Guarded aside shards settings)
    (distinct : (shards.map Shard.id).Nodup) (acyclic : (Lineage.ofShards shards).Acyclic)
    (drains : Drains service turns session deliveries error later) :
    later.Guarded aside shards settings ∧ later.pass.buffer = [] := by
  obtain ⟨next, between, progress, kept, advanced, last⟩ :=
    drains.last (fun _ kept => kept.advance distinct acyclic) guarded
  exact ⟨next, kept.steady.regular.buffer_of_last advanced last⟩

/-- The records beside the troubled shards. -/
def besides (aside : ShardId → Bool) (deliveries : List Delivery) : List Delivery :=
  deliveries.filter fun delivery => aside delivery.shard

theorem besides_append (first second : List Delivery) :
    besides aside (first ++ second) = besides aside first ++ besides aside second :=
  List.filter_append first second

/-- Two sessions whose turns come to the same end with that turn, or they hand out the same in it and
go on. -/
theorem Drains.together
    (drains : Drains service turns first deliveries error later)
    (otherDrains : Drains service otherTurns second otherDeliveries otherError otherLater)
    (progress : (second.advance service).1 = (first.advance service).1) :
    (deliveries = [] ∧ otherDeliveries = [] ∧ otherError = error ∧
      later = (first.advance service).2 ∧ otherLater = (second.advance service).2) ∨
      ∃ fewer otherFewer shown rest otherRest, turns = fewer + 1 ∧ otherTurns = otherFewer + 1 ∧
        deliveries = shown ++ rest ∧ otherDeliveries = shown ++ otherRest ∧
        Drains service fewer (first.advance service).2 rest error later ∧
        Drains service otherFewer (second.advance service).2 otherRest otherError otherLater := by
  have after := drains.after
  have otherAfter := otherDrains.after
  rw [progress] at otherAfter
  cases turned : (first.advance service).1 with
  | unanswered =>
      rw [turned] at after
      exact after.elim
  | ended =>
      rw [turned] at after otherAfter
      obtain ⟨rfl, rfl, rfl⟩ := after
      obtain ⟨rfl, rfl, rfl⟩ := otherAfter
      exact .inl ⟨rfl, rfl, rfl, rfl, rfl⟩
  | failed failure =>
      rw [turned] at after otherAfter
      obtain ⟨rfl, rfl, rfl⟩ := after
      obtain ⟨rfl, rfl, rfl⟩ := otherAfter
      exact .inl ⟨rfl, rfl, rfl, rfl, rfl⟩
  | moved =>
      rw [turned] at after otherAfter
      obtain ⟨fewer, rfl, rest⟩ := after
      obtain ⟨otherFewer, rfl, otherRest⟩ := otherAfter
      exact .inr ⟨fewer, otherFewer, [], _, _, rfl, rfl, rfl, rfl, rest, otherRest⟩
  | delivered delivery =>
      rw [turned] at after otherAfter
      obtain ⟨fewer, handed, rfl, rfl, rest⟩ := after
      obtain ⟨otherFewer, otherHanded, rfl, rfl, otherRest⟩ := otherAfter
      exact .inr ⟨fewer, otherFewer, [delivery], _, _, rfl, rfl, rfl, rfl, rest, otherRest⟩

/-- A turn about a troubled shard can be left out. -/
theorem Guarded.skip (guarded : session.Guarded aside shards settings)
    (distinct : (shards.map Shard.id).Nodup) (acyclic : (Lineage.ofShards shards).Acyclic)
    {shard : ShardId} (due : session.due? = some shard) (troubled : aside shard = false)
    (drains : Drains service turns session deliveries error later) :
    ∃ fewer between rest, turns = fewer + 1 ∧ session.Alike aside between ∧
      between.Guarded aside shards settings ∧ Drains service fewer between rest error later ∧
      besides aside deliveries = besides aside rest := by
  obtain ⟨goesOn, alike⟩ :=
    guarded.steady.troubled_turn guarded.confines distinct acyclic due troubled
  have next := guarded.advance distinct acyclic
  have after := drains.after
  rcases goesOn with moved | ⟨delivery, handed, hidden⟩
  · rw [moved] at after
    obtain ⟨fewer, rfl, rest⟩ := after
    exact ⟨fewer, _, deliveries, rfl, alike, next, rest, rfl⟩
  · rw [handed] at after
    obtain ⟨fewer, others, rfl, rfl, rest⟩ := after
    refine ⟨fewer, _, others, rfl, alike, next, rest, List.filter_cons_of_neg ?_⟩
    rw [hidden]
    exact Bool.false_ne_true

/-- Sessions that look alike are drained of the same beside, and they look alike in the end. -/
theorem Alike.drains (alike : Alike aside first second)
    (guarded : first.Guarded aside shards settings)
    (otherGuarded : second.Guarded aside shards settings)
    (distinct : (shards.map Shard.id).Nodup) (acyclic : (Lineage.ofShards shards).Acyclic)
    (drains : Drains service turns first deliveries error later)
    (otherDrains : Drains service otherTurns second otherDeliveries otherError otherLater) :
    besides aside otherDeliveries = besides aside deliveries ∧ otherError = error ∧
      later.Alike aside otherLater := by
  -- The induction is on the turns of both, because either of them may go ahead.
  induction total : turns + otherTurns using Nat.strongRecOn generalizing turns otherTurns first
    second deliveries otherDeliveries with
  | ind total inductionHypothesis =>
      by_cases troubled : ∃ shard, first.due? = some shard ∧ aside shard = false
      · obtain ⟨shard, due, hidden⟩ := troubled
        obtain ⟨fewer, between, rest, rfl, moved, next, drained, same⟩ :=
          guarded.skip distinct acyclic due hidden drains
        rw [same]
        exact inductionHypothesis _ (by omega) (moved.symm.trans alike) next otherGuarded drained
          otherDrains rfl
      · by_cases otherTroubled : ∃ shard, second.due? = some shard ∧ aside shard = false
        · obtain ⟨shard, due, hidden⟩ := otherTroubled
          obtain ⟨fewer, between, rest, rfl, moved, next, drained, same⟩ :=
            otherGuarded.skip distinct acyclic due hidden otherDrains
          rw [same]
          exact inductionHypothesis _ (by omega) (alike.trans moved) guarded next drains drained
            rfl
        · obtain ⟨progress, next⟩ := alike.turn guarded.steady otherGuarded.steady
            guarded.pauses distinct acyclic
            (fun shard due => Bool.not_eq_false _ ▸ fun hidden => troubled ⟨shard, due, hidden⟩)
            (fun shard due => Bool.not_eq_false _ ▸ fun hidden =>
              otherTroubled ⟨shard, due, hidden⟩)
          rcases drains.together otherDrains progress with
            ⟨rfl, rfl, same, rfl, rfl⟩ |
              ⟨fewer, otherFewer, shown, rest, otherRest, rfl, rfl, rfl, rfl, left, otherLeft⟩
          · exact ⟨rfl, same, next⟩
          · obtain ⟨same, last⟩ := inductionHypothesis _ (by omega) next
              (guarded.advance distinct acyclic) (otherGuarded.advance distinct acyclic) left
              otherLeft rfl
            exact ⟨by rw [besides_append, besides_append, same], last⟩

/-- A pass that opens after a drained one is guarded as well. -/
theorem Guarded.restart (guarded : session.Guarded aside shards settings) :
    (Session.start session.reader session.world).Guarded aside shards settings :=
  ⟨⟨guarded.steady.regular.restart, guarded.steady.plain, guarded.steady.fresh,
    guarded.steady.ordered, guarded.steady.saved⟩, guarded.confines, guarded.pauses⟩

/-- The records of a shard beside are among the records beside. -/
theorem recordsOf_besides {shard : ShardId} (beside : aside shard = true)
    (deliveries : List Delivery) :
    recordsOf shard (besides aside deliveries) = recordsOf shard deliveries := by
  rw [recordsOf, recordsOf, besides, List.filter_filter]
  refine congrArg (List.map Delivery.record) (List.filter_congr fun delivery _ => ?_)
  by_cases own : delivery.shard = shard
  · rw [own, beside, Bool.and_true]
  · rw [beq_false_of_ne own, Bool.false_and]

end Session

namespace Script

/-- The items of a whole pass, drained one by one. -/
def drainPass (reader : Reader) (world : World Script) :
    List (Except ReaderError Delivery) × Reader × World Script :=
  streamPass (world.service.turns reader) reader world

/-- What passes in a row come to: the items of each, the reader and its surroundings. -/
abbrev Passes : Type := List (List (Except ReaderError Delivery)) × Reader × World Script

/-- Passes one after the other, each of which is drained to its end. -/
inductive Drained : Reader → World Script → Passes → Prop where
  | none (reader : Reader) (world : World Script) : Drained reader world ([], reader, world)
  | pass {reader : Reader} {world : World Script} {turns : Nat} {deliveries : List Delivery}
      {error : Option ReaderError} {later : Session Script} {passes : Passes}
      (drains : (Session.start reader world).Drains service turns deliveries error later)
      (rest : Drained later.close.1 later.close.2 passes) :
      Drained reader world (Session.wholeItems deliveries error :: passes.1, passes.2)

/-- Drained passes one after the other, with their items. -/
def drainPasses : Nat → Reader → World Script → Passes
  | 0, reader, world => ([], reader, world)
  | count + 1, reader, world =>
    let passed := drainPass reader world
    let rest := drainPasses count passed.2.1 passed.2.2
    (passed.1 :: rest.1, rest.2)

/-- A pass is drained to its end. -/
theorem drainPass_drains (reader : Reader) (world : World Script) (indexed : reader.Indexed)
    (waits : world.clock.limit = none) :
    ∃ turns deliveries error later,
      (Session.start reader world).Drains service turns deliveries error later ∧
      drainPass reader world = (Session.wholeItems deliveries error, later.close) := by
  obtain ⟨turns, deliveries, error, later, within, drains⟩ := pass_drains reader world indexed waits
  refine ⟨turns, deliveries, error, later, drains, ?_⟩
  rw [drainPass, streamPass, Reader.streamPass, drains.items within within]

/-- The records that a pass has handed out. -/
def handedOut (items : List (Except ReaderError Delivery)) : List Delivery :=
  items.filterMap Except.toOption

/-- The error that has ended a pass. -/
def error? (items : List (Except ReaderError Delivery)) : Option ReaderError :=
  items.findSome? fun
    | .ok _ => none
    | .error error => some error

theorem handedOut_wholeItems (deliveries : List Delivery) (error : Option ReaderError) :
    handedOut (Session.wholeItems deliveries error) = deliveries := by
  induction deliveries with
  | nil => cases error <;> rfl
  | cons delivery rest inductionHypothesis => exact congrArg (delivery :: ·) inductionHypothesis

theorem error?_wholeItems (deliveries : List Delivery) (error : Option ReaderError) :
    error? (Session.wholeItems deliveries error) = error := by
  induction deliveries with
  | nil => cases error <;> rfl
  | cons delivery rest inductionHypothesis => exact inductionHypothesis

/-- What a pass shows beside the troubled shards: its records, and its error. -/
def passBeside (aside : ShardId → Bool) (items : List (Except ReaderError Delivery)) :
    List Delivery × Option ReaderError :=
  (Session.besides aside (handedOut items), error? items)

/-- Two runs of passes look alike beside the troubled shards. -/
structure PassesAlike (aside : ShardId → Bool) (one other : Passes) : Prop where
  shown : other.1.map (passBeside aside) = one.1.map (passBeside aside)
  indexed : one.2.1.Indexed
  otherIndexed : other.2.1.Indexed
  reader : one.2.1.Alike aside other.2.1
  world : ∀ shard, aside shard = true → SameFor shard one.2.2 other.2.2

/-- No pass stops early. -/
theorem drainPasses_drained {reader : Reader} {world : World Script}
    (distinct : (shards.map Shard.id).Nodup) (acyclic : (Lineage.ofShards shards).Acyclic)
    (guarded : (Session.start reader world).Guarded aside shards settings) (count : Nat) :
    Drained reader world (drainPasses count reader world) := by
  induction count generalizing reader world with
  | zero => exact .none reader world
  | succ count inductionHypothesis =>
      obtain ⟨turns, deliveries, error, later, drains, passed⟩ :=
        drainPass_drains reader world guarded.steady.regular.indexed
          guarded.steady.regular.patient.limit
      obtain ⟨next, empty⟩ := guarded.drain distinct acyclic drains
      have closed := Session.close_of_empty empty
      rw [drainPasses, passed]
      refine .pass drains ?_
      rw [closed]
      exact inductionHypothesis next.restart

/-- Passes in a row that begin alike stay alike. -/
theorem drainPasses_alike {reader otherReader : Reader} {world otherWorld : World Script}
    (distinct : (shards.map Shard.id).Nodup) (acyclic : (Lineage.ofShards shards).Acyclic)
    (guarded : (Session.start reader world).Guarded aside shards settings)
    (otherGuarded : (Session.start otherReader otherWorld).Guarded aside shards settings)
    (alike : (Session.start reader world).Alike aside (Session.start otherReader otherWorld))
    (count : Nat) :
    PassesAlike aside (drainPasses count reader world)
      (drainPasses count otherReader otherWorld) := by
  induction count generalizing reader world otherReader otherWorld with
  | zero =>
      exact ⟨rfl, guarded.steady.regular.indexed, otherGuarded.steady.regular.indexed,
        alike.reader, alike.world⟩
  | succ count inductionHypothesis =>
      obtain ⟨turns, deliveries, error, later, drains, passed⟩ :=
        drainPass_drains reader world guarded.steady.regular.indexed
          guarded.steady.regular.patient.limit
      obtain ⟨otherTurns, otherDeliveries, otherError, otherLater, otherDrains, otherPassed⟩ :=
        drainPass_drains otherReader otherWorld otherGuarded.steady.regular.indexed
          otherGuarded.steady.regular.patient.limit
      obtain ⟨records, errors, last⟩ :=
        alike.drains guarded otherGuarded distinct acyclic drains otherDrains
      obtain ⟨next, empty⟩ := guarded.drain distinct acyclic drains
      obtain ⟨otherNext, otherEmpty⟩ := otherGuarded.drain distinct acyclic otherDrains
      have rest := inductionHypothesis next.restart otherNext.restart
        ⟨last.reader, rfl, rfl, rfl, rfl, last.world⟩
      have shown : passBeside aside (drainPass otherReader otherWorld).1 =
          passBeside aside (drainPass reader world).1 := by
        rw [passed, otherPassed, passBeside, passBeside, handedOut_wholeItems,
          handedOut_wholeItems, error?_wholeItems, error?_wholeItems, records, errors]
      simp only [drainPasses]
      rw [passed, otherPassed, Session.close_of_empty empty, Session.close_of_empty otherEmpty]
      rw [passed, otherPassed] at shown
      exact ⟨congrArg₂ List.cons shown rest.shown, rest.indexed, rest.otherIndexed, rest.reader,
        rest.world⟩

/-- A shard is neither the troubled one nor below it. -/
def Apart (shards : List Shard) (troubled shard : ShardId) : Prop :=
  shard ≠ troubled ∧ ¬ Lineage.AncestorOf shards troubled shard

/--
Two scripts describe the same shards and differ in the replies of one of them. Nothing that is
scripted for it or for a shard below it ends a pass.
-/
structure DifferAt (shards : List Shard) (troubled : ShardId) (first second : Script) : Prop where
  plain : Plain shards first
  otherPlain : Plain shards second
  iterators : ∀ shard, shard ≠ troubled →
    second.iterators.getD shard [] = first.iterators.getD shard []
  batches : ∀ shard, shard ≠ troubled →
    second.batches.getD shard [] = first.batches.getD shard []
  harmless : ∀ shard, ¬ Apart shards troubled shard →
    first.Harmless shard ∧ second.Harmless shard

open Classical in
/-- Whether a shard is apart from the troubled one. -/
noncomputable def isApart (shards : List Shard) (troubled shard : ShardId) : Bool :=
  decide (Apart shards troubled shard)

theorem isApart_iff {troubled shard : ShardId} :
    isApart shards troubled shard = true ↔ Apart shards troubled shard := by
  simp only [isApart, decide_eq_true_eq]

theorem isApart_eq_false_iff {troubled shard : ShardId} :
    isApart shards troubled shard = false ↔ ¬ Apart shards troubled shard := by
  simp only [isApart, decide_eq_false_iff_not]

/-- What is below a shard that is not apart is not apart either. -/
theorem not_apart_below {troubled upper lower : ShardId}
    (ancestor : Lineage.AncestorOf shards upper lower) (near : ¬ Apart shards troubled upper) :
    ¬ Apart shards troubled lower := by
  rintro ⟨_, unrelated⟩
  refine near ⟨?_, fun below => unrelated (below.trans ancestor)⟩
  rintro rfl
  exact unrelated ancestor

/-- Before the first pass the troubled shards are confined. -/
theorem guarded_start {settings : ReaderSettings} (pauses : settings.retry.PausesAlike)
    {troubled : ShardId} {script : Script} (plain : Plain shards script)
    (harmless : ∀ shard, ¬ Apart shards troubled shard → script.Harmless shard)
    (monitor : Monitor) :
    (Session.start (.ofSettings settings) (.start script monitor)).Guarded
      (isApart shards troubled) shards settings where
  steady := ⟨Session.regular_start settings plain.named monitor, plain, fun _ => rfl,
    .of_untracked rfl, fun _ _ => rfl⟩
  confines := ⟨fun _ _ ancestor near =>
      isApart_eq_false_iff.mpr (not_apart_below ancestor (isApart_eq_false_iff.mp near)),
    fun shard near => harmless shard (isApart_eq_false_iff.mp near)⟩
  pauses := pauses

/-- Two runs of passes cannot be told apart by one shard. -/
structure SameAt (shard : ShardId) (one other : Passes) : Prop where
  records : other.1.map (fun items => recordsOf shard (handedOut items)) =
    one.1.map fun items => recordsOf shard (handedOut items)
  openings : other.2.2.openings shard = one.2.2.openings shard
  tracked : (other.2.1.tracked? shard).map Tracked.tokenless =
    (one.2.1.tracked? shard).map Tracked.tokenless
  offset : other.2.1.checkpoint.get? shard = one.2.1.checkpoint.get? shard
  lag : other.2.1.lag[shard]? = one.2.1.lag[shard]?

/-- Runs that look alike cannot be told apart beside the troubled shards. -/
theorem PassesAlike.sameAt {one other : Passes} (alike : PassesAlike aside one other)
    {shard : ShardId} (beside : aside shard = true) : SameAt shard one other where
  records := by
    have records := congrArg (List.map fun shown => recordsOf shard shown.1) alike.shown
    simp only [List.map_map, Function.comp_def, passBeside,
      Session.recordsOf_besides beside] at records
    exact records
  openings := (alike.world shard beside).openings
  tracked := alike.reader.lookup alike.indexed alike.otherIndexed beside
  offset := alike.reader.saved shard beside
  lag := alike.reader.lag shard beside

/-- This is what so many drained passes of a new reader over a script come to. -/
def freshPasses (settings : ReaderSettings) (monitor : Monitor) (count : Nat) (script : Script) :
    Passes :=
  drainPasses count (.ofSettings settings) (.start script monitor)

/--
Trouble at one shard stays in its line of descent. Let two scripts differ in the replies of one
shard, let nothing that is scripted for it or below it end a pass, and let the pauses be alike, as
they are without jitter. Then equally many drained passes end with the same errors, if any, and
every other shard is sent the same requests for iterators, hands out the same records pass by pass,
and is left in the same phase, at the same offset and with the same lag.
-/
theorem passes_isolated {settings : ReaderSettings} (pauses : settings.retry.PausesAlike)
    {first second : Script} {troubled : ShardId} (distinct : (shards.map Shard.id).Nodup)
    (acyclic : (Lineage.ofShards shards).Acyclic)
    (differ : DifferAt shards troubled first second) (monitor : Monitor) (count : Nat) :
    Drained (.ofSettings settings) (.start first monitor)
        (freshPasses settings monitor count first) ∧
      Drained (.ofSettings settings) (.start second monitor)
        (freshPasses settings monitor count second) ∧
      (freshPasses settings monitor count second).1.map error? =
        (freshPasses settings monitor count first).1.map error? ∧
      ∀ shard, Apart shards troubled shard →
        SameAt shard (freshPasses settings monitor count first)
          (freshPasses settings monitor count second) := by
  have guarded := guarded_start pauses differ.plain
    (fun shard near => (differ.harmless shard near).1) monitor
  have otherGuarded := guarded_start pauses differ.otherPlain
    (fun shard near => (differ.harmless shard near).2) monitor
  have begins : (Session.start (.ofSettings settings) (.start first monitor)).Alike
      (isApart shards troubled) (Session.start (.ofSettings settings) (.start second monitor)) := by
    refine ⟨.refl _ _, rfl, rfl, rfl, rfl, fun shard apart => ?_⟩
    have other := (isApart_iff.mp apart).1
    exact ⟨differ.iterators shard other, differ.batches shard other, rfl⟩
  have alike := drainPasses_alike distinct acyclic guarded otherGuarded begins count
  refine ⟨drainPasses_drained distinct acyclic guarded count,
    drainPasses_drained distinct acyclic otherGuarded count, ?_,
    fun shard apart => alike.sameAt (isApart_iff.mpr apart)⟩
  have errors := congrArg (List.map Prod.snd) alike.shown
  rw [List.map_map, List.map_map] at errors
  exact errors

/-- A shard that is split once, and one beside it. -/
def besideSplit : List Shard := Reader.splitOnce ++ [⟨"C", none, "300", none⟩]

/-- There is a record in the shard beside, and the split shard has these replies. -/
def splitReplying (replies : List (Reply ScriptedBatch)) : Script :=
  ((describing besideSplit).queueBatches "C" [.now (.ok ⟨[⟨"310", "key", [], none⟩], true, 0⟩)])
    |>.queueBatches "A" replies

/-- The split shard is read to its end at once. -/
def splitRead : Script := splitReplying [.now (.ok ⟨[⟨"110", "key", [], none⟩], false, 0⟩)]

/-- The iterator of the split shard expires before it has read anything. -/
def splitExpired : Script := splitReplying [.now (.error .expiredIterator)]

theorem splitReplying_batches (replies : List (Reply ScriptedBatch)) (shard : ShardId) :
    (splitReplying replies).batches.getD shard [] =
      if "A" = shard then replies else
        if "C" = shard then [.now (.ok ⟨[⟨"310", "key", [], none⟩], true, 0⟩)] else [] := by
  simp [splitReplying, describing, queueBatches, Std.ExtTreeMap.getD_insert]

theorem splitReplying_iterators (replies : List (Reply ScriptedBatch)) (shard : ShardId) :
    (splitReplying replies).iterators.getD shard [] = [] := by
  simp [splitReplying, describing, queueBatches]

theorem splitReplying_plain (replies : List (Reply ScriptedBatch)) :
    Plain besideSplit (splitReplying replies) where
  description := rfl
  undescribed := rfl
  unnamed := fun shard reply member => by
    rw [splitReplying_iterators] at member
    exact absurd member List.not_mem_nil

theorem splitReplying_harmless {replies : List (Reply ScriptedBatch)}
    (harmless : ∀ reply ∈ replies, ∀ fault, reply.result = .error fault →
      fault.isExpiredIterator = true) (shard : ShardId) :
    (splitReplying replies).Harmless shard where
  unopened := fun reply member => by
    rw [splitReplying_iterators] at member
    exact absurd member List.not_mem_nil
  unread := fun reply member fault failed => by
    rw [splitReplying_batches] at member
    split at member
    · exact .inr (.inl (harmless reply member fault failed))
    · split at member
      · rw [List.mem_singleton.mp member] at failed
        cases failed
      · exact absurd member List.not_mem_nil

theorem split_differs : DifferAt besideSplit "A" splitRead splitExpired where
  plain := splitReplying_plain _
  otherPlain := splitReplying_plain _
  iterators := fun shard _ => by
    rw [splitRead, splitExpired, splitReplying_iterators, splitReplying_iterators]
  batches := fun shard other => by
    rw [splitRead, splitExpired, splitReplying_batches, splitReplying_batches,
      if_neg other.symm, if_neg other.symm]
  harmless := fun shard _ => by
    refine ⟨splitReplying_harmless ?_ shard, splitReplying_harmless ?_ shard⟩
    all_goals
      intro reply member fault failed
      rw [List.mem_singleton.mp member] at failed
      cases failed
    rfl

theorem besideSplit_apart : Apart besideSplit "A" "C" := by
  refine ⟨by decide, fun ancestor => ?_⟩
  obtain ⟨upper, _, child, link, same⟩ := Relation.TransGen.tail'_iff.mp ancestor
  obtain ⟨listed, named, _⟩ := Lineage.mem_children.mp link
  have root : ∀ child ∈ besideSplit, child.id = "C" → child.parent = none := by decide
  rw [root child listed same] at named
  cases named

/-- The session before the first pass over the split shard and the one beside it. -/
def splitStart (replies : List (Reply ScriptedBatch)) : Session Script :=
  .start (.ofSettings (.ofStream "stream")) (.start (splitReplying replies) .off)

/-- The reader that has opened both shards. -/
def splitOpened : Reader :=
  ⟨.ofStream "stream", .empty, [⟨"A", .waiting .trimHorizon, .trimHorizon⟩,
    ⟨"C", .waiting .trimHorizon, .trimHorizon⟩],
    ((∅ : Std.ExtTreeMap ShardId Nat).insert "A" 0).insert "C" 1, true, ∅⟩

/-- The world that knows that both shards have been opened. -/
def splitDescribed (replies : List (Reply ScriptedBatch)) : World Script :=
  ((splitStart replies).world.settle service (splitStart replies).plan
    (.listShards "stream")).2.reportAll
      (Reader.assignedReports [⟨"A", .trimHorizon⟩, ⟨"C", .trimHorizon⟩])

theorem splitStart_track (replies : List (Reply ScriptedBatch)) :
    (splitStart replies).reader.track (.atStart (.ofShards besideSplit)
        (splitStart replies).reader.checkpoint (splitStart replies).reader.settings.policy) =
      ([⟨"A", .trimHorizon⟩, ⟨"C", .trimHorizon⟩],
        { splitOpened with initialized := false }) := by
  have entries : (Assignments.atStart (.ofShards besideSplit) .empty .oldest).entries =
      [⟨"A", .trimHorizon⟩, ⟨"C", .trimHorizon⟩] :=
    (List.mergeSort_of_pairwise (by decide +kernel)).trans (by decide +kernel)
  exact congrArg (List.foldl Reader.trackOne ([], (splitStart replies).reader)) entries

/-- The first turn opens both shards. Sorting does not reduce, so a run starts from here. -/
theorem splitStart_advance (replies : List (Reply ScriptedBatch)) :
    (splitStart replies).advance service =
      (.moved, (splitStart replies).enterWith splitOpened (splitDescribed replies)) := by
  have settled : (splitStart replies).world.settle service (splitStart replies).plan
      (.listShards "stream") =
        (some (Request.settle (.listShards "stream") (.ok besideSplit)), _) := rfl
  have prepared : (splitStart replies).world.converse service (splitStart replies).plan
      (splitStart replies).reader.prepare = _ := Reader.converse_prepare rfl settled
  simp only [prepareReports, prepareResult, Reader.opening] at prepared
  rw [splitStart_track] at prepared
  rw [show (splitStart replies).advance service = (splitStart replies).enter service from rfl,
    Session.enter]
  simp only [Session.plan] at prepared ⊢
  rw [prepared]
  rfl

/-- The split shard is read in one run only, and the shard beside it cannot tell the runs apart. -/
theorem split_isolated :
    DifferAt besideSplit "A" splitRead splitExpired ∧ Apart besideSplit "A" "C" ∧
      (freshPasses (.ofStream "stream") .off 1 splitRead).1.map
          (fun items => (handedOut items).map Delivery.shard) = [["A", "C"]] ∧
      (freshPasses (.ofStream "stream") .off 1 splitExpired).1.map
          (fun items => (handedOut items).map Delivery.shard) = [["C"]] ∧
      SameAt "C" (freshPasses (.ofStream "stream") .off 1 splitRead)
        (freshPasses (.ofStream "stream") .off 1 splitExpired) := by
  have pauses : (ReaderSettings.ofStream "stream").retry.PausesAlike := .inr fun _ => rfl
  obtain ⟨_, _, _, same⟩ := passes_isolated pauses (by decide)
    (Lineage.acyclic_of_rank (fun id => if id = "B" then 1 else 0) (by decide)) split_differs .off 1
  have readTurns : (World.start splitRead Monitor.off).service.turns
      (.ofSettings (.ofStream "stream")) = 12 := by decide +kernel
  have expiredTurns : (World.start splitExpired Monitor.off).service.turns
      (.ofSettings (.ofStream "stream")) = 11 := by decide +kernel
  refine ⟨split_differs, besideSplit_apart, ?_, ?_, same "C" besideSplit_apart⟩
  · rw [freshPasses, drainPasses, drainPass, streamPass, Reader.streamPass, readTurns,
      Session.items, Session.next,
      show (Session.start _ (.start splitRead .off)).advance _ = _ from splitStart_advance _]
    decide +kernel
  · rw [freshPasses, drainPasses, drainPass, streamPass, Reader.streamPass, expiredTurns,
      Session.items, Session.next,
      show (Session.start _ (.start splitExpired .off)).advance _ = _ from splitStart_advance _]
    decide +kernel

end Script
end ShardedStream
