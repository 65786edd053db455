/-!
The shutdown signal: a flag that its sender sets, at known times, until the sender is gone.
-/

namespace ShardedStream

/-- What the sender of a signal does. -/
inductive SignalAct where
  | send (value : Bool)
  /-- The sender goes away, and what it still meant to send is lost. -/
  | drop
  deriving DecidableEq, Repr, Inhabited

/-- A schedule of acts in order of time; acts of one instant keep their order. -/
structure Signal where
  schedule : List (Nat × SignalAct)
  ordered : schedule.Pairwise fun first second => first.1 ≤ second.1

namespace Signal

/-- Without a sender the flag stays down. -/
def silent : Signal := ⟨[], .nil⟩

instance : Inhabited Signal := ⟨silent⟩

/-- The flag after some acts, and whether its sender is still there. -/
def perform (state : Bool × Bool) (act : SignalAct) : Bool × Bool :=
  match act with
  | .send value => if state.2 then (value, true) else state
  | .drop => (state.1, false)

/-- The flag at an instant, with every act of that instant done. -/
def raisedAt (signal : Signal) (time : Nat) : Bool :=
  (((signal.schedule.filter fun entry => entry.1 ≤ time).map Prod.snd).foldl perform
    (false, true)).1

/-- The first instant from `start` on, and before `stop`, at which the flag is up. -/
def firstRaised (signal : Signal) (start stop : Nat) : Option Nat :=
  if signal.raisedAt start then some start
  else (signal.schedule.map Prod.fst).find? fun time =>
    start < time && time < stop && signal.raisedAt time

/-- Puts an act behind all acts that are due no later. -/
def insertAct (due : Nat) (act : SignalAct) : List (Nat × SignalAct) → List (Nat × SignalAct)
  | [] => [(due, act)]
  | entry :: rest =>
    if entry.1 ≤ due then entry :: insertAct due act rest else (due, act) :: entry :: rest

theorem mem_insertAct {due : Nat} {act : SignalAct} {entries : List (Nat × SignalAct)}
    {entry : Nat × SignalAct} :
    entry ∈ insertAct due act entries ↔ entry = (due, act) ∨ entry ∈ entries := by
  induction entries with
  | nil => simp [insertAct]
  | cons first rest inductionHypothesis =>
    unfold insertAct
    split
    · simp only [List.mem_cons, inductionHypothesis]
      grind
    · simp

theorem insertAct_ordered (due : Nat) (act : SignalAct) {entries : List (Nat × SignalAct)}
    (ordered : entries.Pairwise fun first second => first.1 ≤ second.1) :
    (insertAct due act entries).Pairwise fun first second => first.1 ≤ second.1 := by
  induction entries with
  | nil => simp [insertAct]
  | cons first rest inductionHypothesis =>
    obtain ⟨least, orderedRest⟩ := List.pairwise_cons.mp ordered
    unfold insertAct
    split
    · refine List.pairwise_cons.mpr ⟨?_, inductionHypothesis orderedRest⟩
      intro entry member
      rcases mem_insertAct.mp member with same | old
      · subst same
        assumption
      · exact least entry old
    · refine List.pairwise_cons.mpr ⟨?_, ordered⟩
      intro entry member
      rcases List.mem_cons.mp member with same | old
      · subst same
        simp only
        omega
      · have := least entry old
        simp only
        omega

/-- Adds an act to the schedule. -/
def plan (signal : Signal) (due : Nat) (act : SignalAct) : Signal :=
  ⟨insertAct due act signal.schedule, insertAct_ordered due act signal.ordered⟩

end Signal

end ShardedStream
