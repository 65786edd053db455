import ShardedStream.Pass

/-!
Drained passes.
A pass that is drained goes through a number of turns, and whoever asks for its records one by one
or all at once gets what these turns hand out, as long as the fuel is more than the turns.
-/

namespace ShardedStream
namespace Session

variable {σ : Type} {service : Service σ} {session between later : Session σ}
  {deliveries : List Delivery} {error : Option ReaderError} {turns fuel count : Nat}

/-- A pass is over after so many turns; it has handed out the records, and an error may end it. -/
inductive Drains (service : Service σ) :
    Nat → Session σ → List Delivery → Option ReaderError → Session σ → Prop where
  | ended {session later : Session σ} (advanced : session.advance service = (.ended, later)) :
      Drains service 0 session [] none later
  | failed {session later : Session σ} {error : ReaderError}
      (advanced : session.advance service = (.failed error, later)) :
      Drains service 0 session [] (some error) later
  | moved {turns : Nat} {session between later : Session σ} {deliveries : List Delivery}
      {error : Option ReaderError} (advanced : session.advance service = (.moved, between))
      (rest : Drains service turns between deliveries error later) :
      Drains service (turns + 1) session deliveries error later
  | handsOut {turns : Nat} {session between later : Session σ} {delivery : Delivery}
      {deliveries : List Delivery} {error : Option ReaderError}
      (advanced : session.advance service = (.delivered delivery, between))
      (rest : Drains service turns between deliveries error later) :
      Drains service (turns + 1) session (delivery :: deliveries) error later

/-- This is what a drained pass still comes to after one turn. -/
def DrainsAfter (service : Service σ) (turns : Nat) (between : Session σ)
    (deliveries : List Delivery) (error : Option ReaderError) (later : Session σ) :
    Progress → Prop
  | .delivered delivery => ∃ fewer rest, turns = fewer + 1 ∧ deliveries = delivery :: rest ∧
    Drains service fewer between rest error later
  | .ended => deliveries = [] ∧ error = none ∧ later = between
  | .failed failure => deliveries = [] ∧ error = some failure ∧ later = between
  | .unanswered => False
  | .moved => ∃ fewer, turns = fewer + 1 ∧ Drains service fewer between deliveries error later

theorem Drains.after (drains : Drains service turns session deliveries error later) :
    DrainsAfter service turns (session.advance service).2 deliveries error later
      (session.advance service).1 := by
  cases drains with
  | ended advanced =>
      rw [advanced]
      exact ⟨rfl, rfl, rfl⟩
  | failed advanced =>
      rw [advanced]
      exact ⟨rfl, rfl, rfl⟩
  | moved advanced rest =>
      rw [advanced]
      exact ⟨_, rfl, rest⟩
  | handsOut advanced rest =>
      rw [advanced]
      exact ⟨_, _, rfl, rfl, rest⟩

/-- What every turn keeps holds when the last turn of a drained pass begins, and when it is over. -/
theorem Drains.last {Keeps : Session σ → Prop}
    (preserves : ∀ session, Keeps session → Keeps (session.advance service).2)
    (drains : Drains service turns session deliveries error later) (keeps : Keeps session) :
    Keeps later ∧ ∃ between progress, Keeps between ∧
      between.advance service = (progress, later) ∧
        (progress = .ended ∨ ∃ error, progress = .failed error) := by
  induction drains with
  | @ended session _ advanced =>
      have kept := preserves session keeps
      rw [advanced] at kept
      exact ⟨kept, session, _, keeps, advanced, .inl rfl⟩
  | @failed session _ error advanced =>
      have kept := preserves session keeps
      rw [advanced] at kept
      exact ⟨kept, session, _, keeps, advanced, .inr ⟨error, rfl⟩⟩
  | @moved _ session _ _ _ _ advanced _ inductionHypothesis =>
      have kept := preserves session keeps
      rw [advanced] at kept
      exact inductionHypothesis kept
  | @handsOut _ session _ _ _ _ _ advanced _ inductionHypothesis =>
      have kept := preserves session keeps
      rw [advanced] at kept
      exact inductionHypothesis kept

/-- The turn that ends a pass, or fails, leaves nothing to hand out and nothing to do. -/
theorem advance_over {progress : Progress}
    (advanced : session.advance service = (progress, later))
    (last : progress = .ended ∨ ∃ error, progress = .failed error) :
    later.pass.buffer = [] ∧ later.pass.finished = true := by
  obtain ⟨reader, ⟨queue, buffer, started, finished⟩, world⟩ := session
  obtain ⟨idle, asking⟩ : progress ≠ .moved ∧ progress ≠ .unanswered := by
    rcases last with rfl | ⟨error, rfl⟩ <;> exact ⟨nofun, nofun⟩
  cases buffer with
  | cons delivery rest =>
      cases advanced
      rcases last with ended | ⟨error, failed⟩ <;> contradiction
  | nil =>
      simp only [Session.advance] at advanced
      split at advanced
      · rename_i ended
        cases advanced
        exact ⟨rfl, ended⟩
      · split at advanced
        · unfold enter at advanced
          dsimp only at advanced
          split at advanced
          · exact absurd (congrArg Prod.fst advanced).symm asking
          · exact absurd (congrArg Prod.fst advanced).symm idle
          · exact absurd (congrArg Prod.fst advanced).symm idle
          · cases advanced
            exact ⟨rfl, rfl⟩
        · split at advanced
          · cases advanced
            exact ⟨rfl, rfl⟩
          · unfold visit at advanced
            split at advanced
            · exact absurd (congrArg Prod.fst advanced).symm asking
            · exact absurd (congrArg Prod.fst advanced).symm idle
            · cases advanced
              exact ⟨rfl, rfl⟩

/-- A drained pass has nothing left to hand out. -/
theorem Drains.buffer_eq_nil (drains : Drains service turns session deliveries error later) :
    later.pass.buffer = [] := by
  obtain ⟨-, between, progress, -, advanced, last⟩ :=
    drains.last (fun _ (kept : True) => kept) trivial
  exact (advance_over advanced last).1

/-- No shard is to be visited before a pass has started, nor after it is over. -/
def Unqueued (session : Session σ) : Prop :=
  session.pass.started = false ∨ session.pass.finished = true → session.pass.queue = []

/-- Only a turn that fails leaves shards in the queue of a pass that is over. -/
theorem Unqueued.advance (service : Service σ) (unqueued : session.Unqueued)
    (unfailed : ∀ error, (session.advance service).1 ≠ .failed error) :
    (session.advance service).2.Unqueued ∧
      ((session.advance service).1 = .ended → (session.advance service).2.pass.queue = []) := by
  obtain ⟨reader, ⟨queue, buffer, started, finished⟩, world⟩ := session
  have running : ∀ {later : Session σ}, later.pass.started = true →
      later.pass.finished = false → later.Unqueued := by
    intro later started unfinished idle
    rw [started, unfinished] at idle
    rcases idle with idle | idle <;> cases idle
  cases buffer with
  | cons delivery rest => exact ⟨unqueued, nofun⟩
  | nil =>
      cases finished with
      | true => exact ⟨unqueued, fun _ => unqueued (.inr rfl)⟩
      | false =>
          cases started with
          | false =>
              have none : queue = [] := unqueued (.inl rfl)
              subst none
              simp only [Session.advance, Bool.false_eq_true, if_false, Bool.not_false, if_true,
                enter] at unfailed ⊢
              split
              · exact ⟨running rfl rfl, nofun⟩
              · exact ⟨running rfl rfl, nofun⟩
              · exact ⟨fun _ => rfl, nofun⟩
              · exact ⟨fun _ => rfl, nofun⟩
          | true =>
              cases queue with
              | nil => exact ⟨fun _ => rfl, fun _ => rfl⟩
              | cons shard rest =>
                  simp only [Session.advance, Bool.false_eq_true, if_false, Bool.not_true, visit]
                    at unfailed ⊢
                  split
                  · exact ⟨running rfl rfl, nofun⟩
                  · exact ⟨running rfl rfl, nofun⟩
                  · rename_i asked
                    rw [asked] at unfailed
                    exact absurd rfl (unfailed _)

/-- A pass that is drained without an error has visited all shards of its queue. -/
theorem Drains.queue_eq_nil (drains : Drains service turns session deliveries none later)
    (unqueued : session.Unqueued) : later.pass.queue = [] := by
  generalize fine : (none : Option ReaderError) = error at drains
  induction drains with
  | ended advanced =>
      have next := unqueued.advance service (by rw [advanced]; exact nofun)
      rw [advanced] at next
      exact next.2 rfl
  | failed advanced => cases fine
  | moved advanced _ inductionHypothesis =>
      have next := unqueued.advance service (by rw [advanced]; exact nofun)
      rw [advanced] at next
      exact inductionHypothesis next.1 fine
  | handsOut advanced _ inductionHypothesis =>
      have next := unqueued.advance service (by rw [advanced]; exact nofun)
      rw [advanced] at next
      exact inductionHypothesis next.1 fine

/-- This is what a pass returns when it has nothing left to hand out. -/
def lastResult : Option ReaderError → Except ReaderError (Option Delivery)
  | none => .ok none
  | some error => .error error

/-- The next record of a drained pass is the first one that it hands out. -/
theorem Drains.next (drains : Drains service turns session deliveries error later)
    (enough : turns < fuel) :
    (deliveries = [] ∧ session.next service fuel = (some (lastResult error), later)) ∨
      ∃ delivery rest fewer between, deliveries = delivery :: rest ∧ fewer < turns ∧
        Drains service fewer between rest error later ∧
        session.next service fuel = (some (.ok (some delivery)), between) := by
  induction drains generalizing fuel with
  | ended advanced =>
      obtain ⟨fuel, rfl⟩ := Nat.exists_eq_succ_of_ne_zero (Nat.ne_zero_of_lt enough)
      exact .inl ⟨rfl, by rw [Session.next, advanced]; rfl⟩
  | failed advanced =>
      obtain ⟨fuel, rfl⟩ := Nat.exists_eq_succ_of_ne_zero (Nat.ne_zero_of_lt enough)
      exact .inl ⟨rfl, by rw [Session.next, advanced]; rfl⟩
  | moved advanced _ inductionHypothesis =>
      obtain ⟨fuel, rfl⟩ := Nat.exists_eq_succ_of_ne_zero (Nat.ne_zero_of_lt enough)
      rw [Session.next, advanced]
      rcases inductionHypothesis (Nat.lt_of_succ_lt_succ enough) with
        last | ⟨delivery, rest, fewer, between, same, less, drains, answered⟩
      · exact .inl last
      · exact .inr ⟨delivery, rest, fewer, between, same, Nat.lt_succ_of_lt less, drains, answered⟩
  | handsOut advanced rest _ =>
      obtain ⟨fuel, rfl⟩ := Nat.exists_eq_succ_of_ne_zero (Nat.ne_zero_of_lt enough)
      refine .inr ⟨_, _, _, _, rfl, Nat.lt_succ_self _, rest, ?_⟩
      rw [Session.next, advanced]

/--
So many calls for the next record return these records. If the pass is over within them, it is over
with an error or without one; a call that does not return is the last one.
-/
inductive Serves (service : Service σ) (fuel : Nat) :
    Nat → Session σ → List Delivery → Option (Option ReaderError) → Session σ → Prop where
  | enough (session : Session σ) : Serves service fuel 0 session [] none session
  | hangs {count : Nat} {session later : Session σ}
      (answered : session.next service fuel = (none, later)) :
      Serves service fuel (count + 1) session [] none later
  | ended {count : Nat} {session later : Session σ} {error : Option ReaderError}
      (answered : session.next service fuel = (some (lastResult error), later)) :
      Serves service fuel (count + 1) session [] (some error) later
  | record {count : Nat} {session between later : Session σ} {delivery : Delivery}
      {records : List Delivery} {ending : Option (Option ReaderError)}
      (answered : session.next service fuel = (some (.ok (some delivery)), between))
      (rest : Serves service fuel count between records ending later) :
      Serves service fuel (count + 1) session (delivery :: records) ending later

/-- Whatever the service does, the calls come to something of this kind. -/
theorem exists_serves (service : Service σ) (fuel count : Nat) (session : Session σ) :
    ∃ records ending later, Serves service fuel count session records ending later := by
  induction count generalizing session with
  | zero => exact ⟨_, _, _, .enough session⟩
  | succ count inductionHypothesis =>
      cases answered : session.next service fuel with
      | mk answer later =>
          rcases answer with _ | error | _ | delivery
          · exact ⟨_, _, _, .hangs answered⟩
          · exact ⟨_, some (some error), _, .ended answered⟩
          · exact ⟨_, some none, _, .ended answered⟩
          · obtain ⟨_, _, _, rest⟩ := inductionHypothesis later
            exact ⟨_, _, _, .record answered rest⟩

/-- A pass that drains is over within enough calls. -/
theorem Drains.serves (drains : Drains service turns session deliveries error later)
    (enough : turns < fuel) (many : turns < count) :
    Serves service fuel count session deliveries (some error) later := by
  induction count generalizing turns session deliveries with
  | zero => exact absurd many (Nat.not_lt_zero _)
  | succ count inductionHypothesis =>
      rcases drains.next enough with
        ⟨rfl, last⟩ | ⟨delivery, rest, fewer, between, rfl, less, drains, answered⟩
      · exact .ended last
      · exact .record answered (inductionHypothesis drains (Nat.lt_trans less enough)
          (Nat.lt_of_lt_of_le less (Nat.le_of_lt_succ many)))

/-- This is what a whole pass returns. -/
def wholeResult (deliveries : List Delivery) :
    Option ReaderError → Except ReaderError (List Delivery)
  | none => .ok deliveries
  | some error => .error error

/-- A caller who wants the whole pass gets it when the pass is over. -/
theorem Serves.collect {ending : Option (Option ReaderError)}
    (serves : Serves service fuel count session deliveries ending later) :
    session.collect service fuel count = (ending.map (wholeResult deliveries), later) := by
  induction serves with
  | enough session => rfl
  | hangs answered => rw [Session.collect, answered]; rfl
  | @ended _ _ _ error answered =>
      rw [Session.collect, answered]
      cases error <;> rfl
  | @record _ _ _ _ _ _ ending answered _ inductionHypothesis =>
      rw [Session.collect, answered]
      simp only [inductionHypothesis]
      rcases ending with _ | _ | error <;> rfl

/-- A drained pass returns all its records, or its error. -/
theorem Drains.collect (drains : Drains service turns session deliveries error later)
    (enough : turns < fuel) (many : turns < count) :
    session.collect service fuel count = (some (wholeResult deliveries error), later) :=
  (drains.serves enough many).collect

/-- A pass that has handed out all it has read is closed as it stands. -/
theorem close_of_empty (empty : session.pass.buffer = []) :
    session.close = (session.reader, session.world) := by
  rw [close, empty]
  rfl

/-- These are the items of a whole pass as a stream. -/
def wholeItems (deliveries : List Delivery) (error : Option ReaderError) :
    List (Except ReaderError Delivery) :=
  deliveries.map .ok ++ (error.map .error).toList

/-- A stream yields the records and then the error, if one has come. -/
theorem Serves.items {ending : Option (Option ReaderError)}
    (serves : Serves service fuel count session deliveries ending later) :
    session.items service fuel count = (wholeItems deliveries ending.join, later) := by
  induction serves with
  | enough session => rfl
  | hangs answered => rw [Session.items, answered]; rfl
  | @ended _ _ _ error answered =>
      rw [Session.items, answered]
      cases error <;> rfl
  | record answered _ inductionHypothesis =>
      rw [Session.items, answered]
      simp only [inductionHypothesis]
      rfl

/-- A drained pass yields all its records, and then its error. -/
theorem Drains.items (drains : Drains service turns session deliveries error later)
    (enough : turns < fuel) (many : turns < count) :
    session.items service fuel count = (wholeItems deliveries error, later) :=
  (drains.serves enough many).items

end Session
end ShardedStream
