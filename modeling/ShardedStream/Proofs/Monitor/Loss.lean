import Mathlib.Data.List.DropRight
import Mathlib.Data.List.Induction
import ShardedStream.Monitor

/-!
Which events are lost.
An event is let in while its receiver is there and fewer events wait than there is room for. What is
let in is received in order, by the next time that the receiver drains its channel.
-/

namespace ShardedStream

/-- This is what happens to a channel. -/
inductive ChannelAct where
  | emit (event : Event)
  | receive (act : ReceiverAct)
  deriving DecidableEq, Repr

/-- These are the emitted events, in order. -/
def emitted : List ChannelAct → List Event
  | [] => []
  | .emit event :: acts => event :: emitted acts
  | .receive _ :: acts => emitted acts

/-- The receiver has gone away. -/
def Abandons (acts : List ChannelAct) : Prop := .receive .leave ∈ acts

instance (acts : List ChannelAct) : Decidable (Abandons acts) :=
  inferInstanceAs (Decidable (.receive .leave ∈ acts))

/-- How many events wait that the receiver has not drained; there is room for so many. -/
def undrained (room waiting : Nat) : List ChannelAct → Nat
  | [] => waiting
  | .emit _ :: acts => undrained room (if waiting < room then waiting + 1 else waiting) acts
  | .receive .drain :: acts => undrained room 0 acts
  | .receive .leave :: acts => undrained room waiting acts

/-- These are the events that are let in, in order, when there is room for so many. -/
def admitted (room waiting : Nat) : List ChannelAct → List Event
  | [] => []
  | .emit event :: acts =>
    if waiting < room then event :: admitted room (waiting + 1) acts
    else admitted room waiting acts
  | .receive .drain :: acts => admitted room 0 acts
  | .receive .leave :: _ => []

/-- These acts come before the receiver goes away, and the last one of them is a drain. -/
def untilLastDrain (acts : List ChannelAct) : List ChannelAct :=
  (acts.takeWhile (· ≠ .receive .leave)).rdropWhile (· ≠ .receive .drain)

section Acts

variable {room waiting : Nat} {acts : List ChannelAct} {act : ChannelAct}

@[simp] theorem emitted_append (first second : List ChannelAct) :
    emitted (first ++ second) = emitted first ++ emitted second := by
  induction first with
  | nil => rfl
  | cons act first inductionHypothesis => cases act <;> simp [emitted, inductionHypothesis]

theorem emitted_sublist {first second : List ChannelAct} (part : first.Sublist second) :
    (emitted first).Sublist (emitted second) := by
  induction part with
  | slnil => exact .slnil
  | cons act _ inductionHypothesis =>
      cases act with
      | emit event => exact inductionHypothesis.cons event
      | receive => exact inductionHypothesis
  | cons_cons act _ inductionHypothesis =>
      cases act with
      | emit event => exact inductionHypothesis.cons_cons event
      | receive => exact inductionHypothesis

theorem undrained_append (room waiting : Nat) (first second : List ChannelAct) :
    undrained room waiting (first ++ second) =
      undrained room (undrained room waiting first) second := by
  induction first generalizing waiting with
  | nil => rfl
  | cons act first inductionHypothesis =>
      rcases act with event | _ | _
      · exact inductionHypothesis _
      · exact inductionHypothesis _
      · exact inductionHypothesis _

/-- No more events wait than there is room for. -/
theorem undrained_le (acts : List ChannelAct) (within : waiting ≤ room) :
    undrained room waiting acts ≤ room := by
  induction acts generalizing waiting with
  | nil => exact within
  | cons act acts inductionHypothesis =>
      rcases act with event | _ | _
      · refine inductionHypothesis ?_
        split <;> omega
      · exact inductionHypothesis (Nat.zero_le room)
      · exact inductionHypothesis within

/-- Nothing is let in once the receiver is gone. -/
theorem admitted_append (room waiting : Nat) (first second : List ChannelAct) :
    admitted room waiting (first ++ second) = admitted room waiting first ++
      if Abandons first then [] else admitted room (undrained room waiting first) second := by
  induction first generalizing waiting with
  | nil => rfl
  | cons act first inductionHypothesis =>
      have still (other : act ≠ .receive .leave) : Abandons (act :: first) ↔ Abandons first := by
        simp [Abandons, other.symm]
      rcases act with event | _ | _
      · simp only [List.cons_append, admitted, undrained, still ChannelAct.noConfusion]
        split
        · rw [inductionHypothesis, List.cons_append]
        · exact inductionHypothesis _
      · simp only [List.cons_append, admitted, undrained, still (by simp)]
        exact inductionHypothesis 0
      · have gone : Abandons (.receive .leave :: first) := List.mem_cons_self
        rw [if_pos gone]
        rfl

/-- An event is kept out when the receiver is gone or the channel is full, and only then. -/
theorem admitted_emit (within : waiting ≤ room) (acts : List ChannelAct) (event : Event) :
    admitted room waiting (acts ++ [.emit event]) = admitted room waiting acts ++
      if Abandons acts ∨ undrained room waiting acts = room then [] else [event] := by
  have bound := undrained_le acts within
  rw [admitted_append]
  by_cases gone : Abandons acts
  · rw [if_pos gone, if_pos (.inl gone)]
  · rw [if_neg gone]
    by_cases full : undrained room waiting acts = room
    · rw [if_pos (.inr full), full, admitted, if_neg (Nat.lt_irrefl room)]
      rfl
    · rw [if_neg (not_or.mpr ⟨gone, full⟩), admitted, if_pos (by omega)]
      rfl

/-- An event that is kept out is left out, and nothing else is. -/
theorem admitted_sublist (room waiting : Nat) (acts : List ChannelAct) :
    (admitted room waiting acts).Sublist (emitted acts) := by
  induction acts generalizing waiting with
  | nil => exact .slnil
  | cons act acts inductionHypothesis =>
      rcases act with event | _ | _
      · simp only [admitted, emitted]
        split
        · exact (inductionHypothesis _).cons_cons event
        · exact (inductionHypothesis _).cons event
      · exact inductionHypothesis 0
      · exact List.nil_sublist _

/-- With room for everything nothing is kept out of a channel that is not abandoned. -/
theorem admitted_eq_emitted (acts : List ChannelAct) (stays : ¬ Abandons acts)
    (roomy : waiting + (emitted acts).length ≤ room) :
    admitted room waiting acts = emitted acts := by
  induction acts generalizing waiting with
  | nil => rfl
  | cons act acts inductionHypothesis =>
      have staysLater : ¬ Abandons acts := fun gone => stays (List.mem_cons_of_mem _ gone)
      rcases act with event | _ | _
      · simp only [emitted, List.length_cons] at roomy
        rw [admitted, if_pos (by omega), emitted, inductionHypothesis staysLater (by omega)]
      · exact inductionHypothesis staysLater
          (Nat.le_trans (Nat.add_le_add_right (Nat.zero_le waiting) _) roomy)
      · exact absurd List.mem_cons_self stays

/-- What is heard does not change until the receiver drains again. -/
theorem untilLastDrain_concat (acts : List ChannelAct) (act : ChannelAct) :
    untilLastDrain (acts ++ [act]) =
      if act = .receive .drain ∧ ¬ Abandons acts then acts ++ [act] else untilLastDrain acts := by
  by_cases gone : Abandons acts
  · rw [if_neg fun both => both.2 gone, untilLastDrain, untilLastDrain,
      List.takeWhile_append, if_neg]
    intro whole
    have all := (List.takeWhile_prefix _).eq_of_length whole
    have absent := List.takeWhile_eq_self_iff.mp all _ gone
    simp at absent
  · have present : acts.takeWhile (· ≠ .receive .leave) = acts := by
      refine List.takeWhile_eq_self_iff.mpr fun other member => ?_
      simp only [ne_eq, decide_eq_true_eq]
      rintro rfl
      exact gone member
    rw [untilLastDrain, untilLastDrain, List.takeWhile_append, present, if_pos rfl]
    rcases act with event | _ | _
    · rw [if_neg fun both => ChannelAct.noConfusion both.1]
      exact List.rdropWhile_concat_pos _ _ _ (by simp)
    · rw [if_pos ⟨rfl, gone⟩]
      exact List.rdropWhile_concat_neg _ _ _ (by simp)
    · rw [if_neg fun both => by cases both.1]
      simp

theorem untilLastDrain_sublist (acts : List ChannelAct) : (untilLastDrain acts).Sublist acts :=
  (List.rdropWhile_prefix _ _).sublist.trans (List.takeWhile_sublist _)

end Acts

namespace Channel

def perform (channel : Channel) : ChannelAct → Channel
  | .emit event => channel.emit event
  | .receive act => channel.receive act

/-- A channel goes through any acts in any order. -/
def play (acts : List ChannelAct) (channel : Channel) : Channel := acts.foldl perform channel

@[simp] theorem play_append (first second : List ChannelAct) (channel : Channel) :
    channel.play (first ++ second) = (channel.play first).play second := List.foldl_append

/-- Somebody may still receive an event, and there is room for it. -/
def accepts (channel : Channel) : Bool :=
  channel.hasReceiver && channel.waiting.length < channel.capacity

theorem emit_eq (channel : Channel) (event : Event) :
    channel.emit event =
      if channel.accepts then { channel with waiting := channel.waiting ++ [event] }
      else channel := rfl

/-- This is what a channel with room for so many events has made of what happened to it. -/
structure Made (room : Nat) (acts : List ChannelAct) (channel : Channel) : Prop where
  capacity : channel.capacity = room
  present : channel.hasReceiver = true ↔ ¬ Abandons acts
  gone : Abandons acts → channel.waiting = []
  count : ¬ Abandons acts → channel.waiting.length = undrained room 0 acts
  kept : ¬ Abandons acts → channel.received ++ channel.waiting = admitted room 0 acts
  received : channel.received = admitted room 0 (untilLastDrain acts)

variable {room : Nat} {acts : List ChannelAct} {channel : Channel}

/-- A channel lets an event in while its receiver is there and fewer wait than there is room for. -/
theorem Made.accepts_iff (made : channel.Made room acts) :
    channel.accepts = true ↔ ¬ Abandons acts ∧ undrained room 0 acts < room := by
  rw [accepts, Bool.and_eq_true, decide_eq_true_iff, made.present, made.capacity]
  exact and_congr_right fun stays => by rw [made.count stays]

/-- An event that is let in waits behind the others. -/
theorem Made.letIn (made : channel.Made room acts) (event : Event) (stays : ¬ Abandons acts)
    (fits : undrained room 0 acts < room) :
    ({ channel with waiting := channel.waiting ++ [event] } : Channel).Made room
      (acts ++ [.emit event]) := by
  have same : Abandons (acts ++ [.emit event]) ↔ Abandons acts := by simp [Abandons]
  refine ⟨made.capacity, by rw [same]; exact made.present, fun gone => absurd (same.mp gone) stays,
    fun _ => ?_, fun _ => ?_, ?_⟩
  · rw [undrained_append, List.length_append, made.count stays]
    exact (if_pos fits).symm
  · rw [admitted_emit (Nat.zero_le room), if_neg (not_or.mpr ⟨stays, Nat.ne_of_lt fits⟩),
      ← made.kept stays, List.append_assoc]
  · rw [untilLastDrain_concat, if_neg fun both => ChannelAct.noConfusion both.1]
    exact made.received

/-- An event that is not let in leaves a channel as it was. -/
theorem Made.turnedAway (made : channel.Made room acts) (event : Event)
    (out : Abandons acts ∨ undrained room 0 acts = room) :
    channel.Made room (acts ++ [.emit event]) := by
  have same : Abandons (acts ++ [.emit event]) ↔ Abandons acts := by simp [Abandons]
  refine ⟨made.capacity, by rw [same]; exact made.present, fun gone => made.gone (same.mp gone),
    fun stays => ?_, fun stays => ?_, ?_⟩
  · have full := out.resolve_left fun gone => stays (same.mpr gone)
    rw [undrained_append, made.count fun gone => stays (same.mpr gone), full]
    exact (if_neg (Nat.lt_irrefl room)).symm
  · rw [admitted_emit (Nat.zero_le room), if_pos out, List.append_nil]
    exact made.kept fun gone => stays (same.mpr gone)
  · rw [untilLastDrain_concat, if_neg fun both => ChannelAct.noConfusion both.1]
    exact made.received

/-- A channel keeps an event that finds room, and turns any other one away. -/
theorem Made.emit (made : channel.Made room acts) (event : Event) :
    (channel.emit event).Made room (acts ++ [.emit event]) := by
  rw [emit_eq]
  by_cases accepting : channel.accepts = true
  · obtain ⟨stays, fits⟩ := made.accepts_iff.mp accepting
    rw [if_pos accepting]
    exact made.letIn event stays fits
  · rw [if_neg accepting]
    refine made.turnedAway event (or_iff_not_imp_left.mpr fun stays => ?_)
    exact (undrained_le acts (Nat.zero_le room)).antisymm
      (Nat.le_of_not_lt fun fits => accepting (made.accepts_iff.mpr ⟨stays, fits⟩))

/-- A drain takes out what waits, unless the receiver is gone. -/
theorem Made.drain (made : channel.Made room acts) :
    channel.drain.Made room (acts ++ [.receive .drain]) := by
  have same : Abandons (acts ++ [.receive .drain]) ↔ Abandons acts := by simp [Abandons]
  have kept : admitted room 0 (acts ++ [.receive .drain]) = admitted room 0 acts := by
    rw [admitted_append]
    split <;> exact List.append_nil _
  have received : channel.received ++ channel.waiting =
      admitted room 0 (untilLastDrain (acts ++ [.receive .drain])) := by
    rw [untilLastDrain_concat]
    by_cases gone : Abandons acts
    · rw [if_neg fun both => both.2 gone, made.gone gone, List.append_nil]
      exact made.received
    · rw [if_pos ⟨rfl, gone⟩, kept]
      exact made.kept gone
  refine ⟨made.capacity, by rw [same]; exact made.present, fun _ => rfl, fun _ => ?_,
    fun stays => ?_, received⟩
  · rw [undrained_append]
    rfl
  · rw [kept, ← made.kept fun gone => stays (same.mpr gone)]
    exact List.append_nil _

/-- What waits when the receiver leaves is never received. -/
theorem Made.close (made : channel.Made room acts) :
    channel.close.Made room (acts ++ [.receive .leave]) := by
  have gone : Abandons (acts ++ [.receive .leave]) := by simp [Abandons]
  refine ⟨made.capacity, iff_of_false Bool.false_ne_true fun stays => stays gone, fun _ => rfl,
    fun stays => absurd gone stays, fun stays => absurd gone stays, ?_⟩
  rw [untilLastDrain_concat, if_neg fun both => by cases both.1]
  exact made.received

theorem made_play (size : Nat) (acts : List ChannelAct) :
    ((ofSize size).play acts).Made (Nat.max size 1) acts := by
  induction acts using List.reverseRecOn with
  | nil =>
      exact ⟨rfl, iff_of_true rfl List.not_mem_nil, fun _ => rfl, fun _ => rfl, fun _ => rfl, rfl⟩
  | append_singleton acts act inductionHypothesis =>
      rw [play_append]
      rcases act with event | _ | _
      · exact inductionHypothesis.emit event
      · exact inductionHypothesis.drain
      · exact inductionHypothesis.close

/--
This is what the receiver gets of the events that are emitted into a channel of some size, and what
it will find there.
-/
structure Delivers (size : Nat) (acts : List ChannelAct) (channel : Channel) : Prop where
  /-- The receiver gets what was let in before it drained the channel for the last time. -/
  received : channel.received = admitted (Nat.max size 1) 0 (untilLastDrain acts)
  /-- Until the receiver goes away, the other events that were let in wait for it. -/
  waits : ¬ Abandons acts →
    channel.received ++ channel.waiting = admitted (Nat.max size 1) 0 acts ∧
      channel.waiting.length = undrained (Nat.max size 1) 0 acts
  /-- What the receiver gets are emitted events, in the order of their emission. -/
  inOrder : channel.received.Sublist (emitted acts)
  /-- An event is kept out when the receiver is gone or the channel is full, and only then. -/
  keptOut : ∀ before event after, acts = before ++ .emit event :: after →
    admitted (Nat.max size 1) 0 (before ++ [.emit event]) =
      admitted (Nat.max size 1) 0 before ++
        if Abandons before ∨ undrained (Nat.max size 1) 0 before = Nat.max size 1 then []
        else [event]
  /-- With room for everything nothing is kept out. -/
  whole : ¬ Abandons acts → (emitted acts).length ≤ size →
    channel.received ++ channel.waiting = emitted acts

/-- A channel loses only what finds it full or abandoned. -/
theorem delivers (size : Nat) (acts : List ChannelAct) :
    Delivers size acts ((ofSize size).play acts) := by
  have made := made_play size acts
  refine ⟨made.received, fun stays => ⟨made.kept stays, made.count stays⟩, ?_,
    fun before event _ _ => admitted_emit (Nat.zero_le _) before event, fun stays roomy => ?_⟩
  · rw [made.received]
    refine (admitted_sublist _ _ _).trans ?_
    exact emitted_sublist (untilLastDrain_sublist acts)
  · rw [made.kept stays]
    exact admitted_eq_emitted acts stays
      ((Nat.zero_add _).trans_le (roomy.trans (Nat.le_max_left size 1)))

end Channel
end ShardedStream
