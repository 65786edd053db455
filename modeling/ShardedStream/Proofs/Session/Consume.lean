import ShardedStream.Proofs.Session.Abort
import ShardedStream.Proofs.Session.Contiguous

/-!
All ways to consume a pass.
A pass can be asked for its records one by one, it can be taken as a stream, and it can be collected
as a whole. Each of them makes the same calls for the next record, so as many of them leave the same
behind; once the pass is over nothing more is asked, and every record that was returned is saved.
-/

namespace ShardedStream

/-- A preparation hands out nothing. -/
theorem Reader.Prepares.checkpoint {σ : Type} {service : Service σ} {reader prepared : Reader}
    {world later : World σ} (prepares : reader.Prepares service world (some prepared) later)
    (indexed : reader.Indexed) : prepared.checkpoint = reader.checkpoint := by
  cases prepares with
  | already _ => rfl
  | @described shards _ _ _ _ =>
      have tracks := indexed.track
        (Assignments.atStart (.ofShards shards) reader.checkpoint reader.settings.policy)
      rw [Reader.opening, tracks.rest]

namespace Session

variable {σ : Type} {service : Service σ} {session between later : Session σ} {fuel count : Nat}
  {records : List Delivery} {ending : Option (Option ReaderError)}

/-- The results of so many calls for the next record. A call that does not return is the last. -/
def calls (service : Service σ) (fuel : Nat) :
    Nat → Session σ → List (Except ReaderError (Option Delivery)) × Session σ
  | 0, session => ([], session)
  | count + 1, session =>
    match session.next service fuel with
    | (some result, session) =>
      let rest := calls service fuel count session
      (result :: rest.1, rest.2)
    | (none, session) => ([], session)

/-- A pass that is over has nothing to hand out and nothing to do. -/
def Over (session : Session σ) : Prop :=
  session.pass.buffer = [] ∧ session.pass.finished = true

theorem Over.next (ended : session.Over) (service : Service σ) (fuel : Nat) :
    session.next service (fuel + 1) = (some (.ok none), session) := by
  rw [Session.next, advance_finished ended.1 ended.2]

/-- Whoever asks a pass that is over gets nothing, and changes nothing. -/
theorem Over.calls (ended : session.Over) (service : Service σ) (fuel count : Nat) :
    session.calls service (fuel + 1) count = (List.replicate count (.ok none), session) := by
  induction count with
  | zero => rfl
  | succ count inductionHypothesis =>
      rw [Session.calls, ended.next service fuel]
      simp only [inductionHypothesis, List.replicate_succ]

theorem Over.items (ended : session.Over) (service : Service σ) (fuel count : Nat) :
    session.items service (fuel + 1) count = ([], session) := by
  cases count with
  | zero => rfl
  | succ count => rw [Session.items, ended.next service fuel]

/-- A call that returns no record leaves the pass over. -/
theorem over_of_next {error : Option ReaderError}
    (answered : session.next service fuel = (some (lastResult error), later)) : later.Over := by
  induction fuel generalizing session with
  | zero => cases answered
  | succ fuel inductionHypothesis =>
      rw [Session.next] at answered
      split at answered
      · cases error <;> cases answered
      · rename_i advanced
        obtain rfl := congrArg Prod.snd answered
        exact advance_over advanced (.inl rfl)
      · rename_i failure _ advanced
        obtain rfl := congrArg Prod.snd answered
        exact advance_over advanced (.inr ⟨failure, rfl⟩)
      · cases answered
      · exact inductionHypothesis answered

/-- The record that a call returns, if it returns one. -/
def returned? : Option (Except ReaderError (Option Delivery)) → Option Delivery
  | some (.ok delivery?) => delivery?
  | some (.error _) => none
  | none => none

/-- A turn saves the number of the record that it hands out, and no other. -/
theorem Turn.saved {progress : Progress} (turn : Turn service session progress later)
    (indexed : session.reader.Indexed) :
    later.reader.checkpoint =
      session.reader.checkpoint.recordAll progress.delivery?.toList := by
  cases turn with
  | handsOut held => rfl
  | stays _ silent reader _ _ => rw [silent, reader]; rfl
  | prepares _ prepares became _ =>
      rw [became]
      exact prepares.checkpoint indexed
  | visits _ member steps became _ _ _ =>
      rw [became]
      exact (Reader.follows_apply indexed member steps.shard).checkpoint

/-- So does a call for the next record. -/
theorem next_saved (service : Service σ) (fuel : Nat) (indexed : session.reader.Indexed) :
    (session.next service fuel).2.reader.Indexed ∧
      (session.next service fuel).2.reader.checkpoint = session.reader.checkpoint.recordAll
        (returned? (session.next service fuel).1).toList := by
  induction fuel generalizing session with
  | zero => exact ⟨indexed, rfl⟩
  | succ fuel inductionHypothesis =>
      have turn : Turn service session _ _ := advance_turn indexed
      have sound := (turn.indexed indexed).1
      have saved := turn.saved indexed
      rw [Session.next]
      split
      · rename_i advanced
        rw [advanced] at sound saved
        exact ⟨sound, saved⟩
      · rename_i advanced
        rw [advanced] at sound saved
        exact ⟨sound, saved⟩
      · rename_i advanced
        rw [advanced] at sound saved
        exact ⟨sound, saved⟩
      · rename_i advanced
        rw [advanced] at sound saved
        exact ⟨sound, saved⟩
      · rename_i advanced
        rw [advanced] at sound saved
        obtain ⟨soundLater, savedLater⟩ := inductionHypothesis sound
        rw [saved] at savedLater
        exact ⟨soundLater, savedLater⟩

namespace Serves

/-- The number of every record that was returned is saved, and no other. -/
theorem saved (serves : Serves service fuel count session records ending later)
    (indexed : session.reader.Indexed) :
    later.reader.checkpoint = session.reader.checkpoint.recordAll records := by
  induction serves with
  | enough session => rfl
  | @hangs _ session _ answered =>
      have saved := (next_saved service fuel indexed).2
      rw [answered] at saved
      exact saved
  | @ended _ session _ error answered =>
      have saved := (next_saved service fuel indexed).2
      rw [answered] at saved
      cases error <;> exact saved
  | @record _ session _ _ delivery _ _ answered _ inductionHypothesis =>
      obtain ⟨sound, saved⟩ := next_saved service fuel indexed
      rw [answered] at sound saved
      rw [inductionHypothesis sound, saved]
      rfl

/-- The calls return the records, and after the end of the pass nothing. -/
theorem calls (serves : Serves service fuel count session records ending later) :
    session.calls service fuel count =
      (records.map (fun record => .ok (some record)) ++
        match ending with
        | none => []
        | some error => lastResult error :: List.replicate (count - records.length - 1) (.ok none),
      later) := by
  induction serves with
  | enough session => rfl
  | hangs answered => rw [Session.calls, answered]; rfl
  | @ended count _ _ error answered =>
      have ended := over_of_next answered
      obtain ⟨fuel, rfl⟩ := Nat.exists_eq_succ_of_ne_zero (n := fuel) (by
        rintro rfl
        cases answered)
      rw [Session.calls, answered]
      simp only [ended.calls service fuel count]
      simp
  | @record count _ _ _ delivery records ending answered _ inductionHypothesis =>
      rw [Session.calls, answered]
      simp only [inductionHypothesis, List.map_cons, List.cons_append, List.length_cons,
        Nat.add_sub_add_right]

/-- Once the pass is over, nothing waits to be handed out, and a stream of it yields no more. -/
theorem over_of_ending {error : Option ReaderError}
    (serves : Serves service fuel count session records (some error) later) :
    later.Over ∧ ∀ more, later.items service fuel more = ([], later) := by
  generalize same : some error = ending at serves
  induction serves with
  | enough session => cases same
  | hangs answered => cases same
  | ended answered =>
      have ended := over_of_next answered
      refine ⟨ended, fun more => ?_⟩
      cases fuel with
      | zero => cases answered
      | succ fuel => exact ended.items service fuel more
  | record _ _ inductionHypothesis => exact inductionHypothesis same

end Serves

/--
So many calls of a pass come to these records, whichever way they are made: they return the same
records and the same error, and they leave the same session behind, in which the last record of
each shard is saved.
-/
structure Consumed (service : Service σ) (fuel count : Nat) (reader : Reader) (world : World σ)
    (records : List Delivery) (ending : Option (Option ReaderError)) (later : Session σ) :
    Prop where
  /-- Call by call the pass returns the records, then its error or nothing, and then nothing. -/
  calls : (start reader world).calls service fuel count =
    (records.map (fun record => .ok (some record)) ++
      match ending with
      | none => []
      | some error => lastResult error :: List.replicate (count - records.length - 1) (.ok none),
    later)
  /-- As a stream it yields the records, and then its error if it has one. -/
  stream : reader.streamPass service fuel count world =
    (wholeItems records ending.join, later.close)
  /-- As a whole it returns the records or its error, once it is over. -/
  whole : (start reader world).collect service fuel count =
    (ending.map (wholeResult records), later)
  /-- The number of the last record of each shard is saved, and nothing else. -/
  saved : reader.checkpoint.Saves records later.reader.checkpoint
  /-- The stream has ended for good with the pass, and closing it changes nothing. -/
  ended : ending ≠ none → later.close = (later.reader, later.world) ∧
    ∀ more, later.items service fuel more = ([], later)

theorem Serves.consumed {reader : Reader} {world : World σ}
    (serves : Serves service fuel count (start reader world) records ending later)
    (indexed : reader.Indexed) : Consumed service fuel count reader world records ending later where
  calls := serves.calls
  stream := by rw [Reader.streamPass, serves.items]
  whole := serves.collect
  saved := by
    rw [serves.saved indexed]
    exact reader.checkpoint.recordAll_saves records
  ended := fun ended => by
    obtain ⟨error, rfl⟩ := Option.ne_none_iff_exists'.mp ended
    obtain ⟨⟨empty, _⟩, nothing⟩ := serves.over_of_ending
    exact ⟨close_of_empty empty, nothing⟩

end Session

/--
All ways to consume a pass agree, wherever they stop. A pass that drains is over within enough
calls, and then a whole pass returns its records or its error and leaves the same reader.
-/
theorem Reader.passes_agree {settings : ReaderSettings} {reader : Reader}
    (reached : Reached settings reader) {σ : Type} (service : Service σ) (world : World σ) :
    (∀ fuel count, ∃ records ending later,
      Session.Consumed service fuel count reader world records ending later) ∧
    ∀ turns records error later,
      (Session.start reader world).Drains service turns records error later →
        ∀ fuel count, turns < fuel → turns < count →
          Session.Consumed service fuel count reader world records (some error) later ∧
          reader.runPass service fuel world =
            (some (Session.wholeResult records error), later.close) := by
  refine ⟨fun fuel count => ?_, fun turns records error later drains fuel count enough many => ?_⟩
  · obtain ⟨records, ending, later, serves⟩ :=
      Session.exists_serves service fuel count (.start reader world)
    exact ⟨records, ending, later, serves.consumed reached.indexed⟩
  · refine ⟨(drains.serves enough many).consumed reached.indexed, ?_⟩
    rw [runPass, drains.collect enough enough]

/-- The first of two records is taken, and the shard goes back to the second one; a pass that is not
allowed to read its second shard returns the record of the first one, its error, and nothing. -/
theorem Session.stops_agree :
    (∃ records ending later,
      Consumed Life.twoRecordService 9 1 (.ofSettings (.ofStream "stream")) (.start () .off)
        records ending later ∧
      wholeItems records ending.join = [.ok ⟨"A", "1", "key", [], none⟩] ∧
      later.reader.checkpoint.get? "A" = some "1" ∧
      later.close.1.shards = [⟨"A", .waiting (.atSequence "2"), .atSequence "2"⟩]) ∧
    ∃ records ending later,
      Consumed Script.service 9 4 threeOpened (.start brokenService .off) records ending later ∧
      wholeItems records ending.join =
        [.ok ⟨"A", "110", "key", [], none⟩, .error (.client (.accessDenied "denied"))] ∧
      ((start threeOpened (.start brokenService .off)).calls Script.service 9 4).1.length = 4 := by
  have fresh : Reader.Reached (.ofStream "stream") (.ofSettings (.ofStream "stream")) := .refl
  have opened : Reader.Reached (.ofStream "stream") threeOpened := .single (.prepared _ _)
  obtain ⟨taken, running, middle, early⟩ :=
    (Reader.passes_agree fresh Life.twoRecordService (.start () .off)).1 9 1
  obtain ⟨records, ending, later, aborted⟩ :=
    (Reader.passes_agree opened Script.service (.start brokenService .off)).1 9 4
  have left : middle = _ := (congrArg Prod.snd early.calls).symm
  refine ⟨⟨taken, running, middle, early, ?_, ?_, ?_⟩, records, ending, later, aborted, ?_, ?_⟩
  · refine (congrArg Prod.fst early.stream).symm.trans ?_
    decide +kernel
  · rw [left]
    decide +kernel
  · rw [left]
    decide +kernel
  · refine (congrArg Prod.fst aborted.stream).symm.trans ?_
    decide +kernel
  · decide +kernel

end ShardedStream
