import Mathlib.Order.Nat
import ShardedStream.Shutdown

/-!
When a signal is up.
The flag changes only at the instants of the schedule, so the first instant of a pause at which it
is up is the start of the pause or one of them.
-/

namespace ShardedStream
namespace Signal

variable {signal : Signal} {start stop instant : Nat}

/-- Between two instants without an act the flag stays as it is. -/
theorem raisedAt_congr {earlier later : Nat} (ordered : earlier ≤ later)
    (idle : ∀ entry ∈ signal.schedule, entry.1 ≤ later → entry.1 ≤ earlier) :
    signal.raisedAt later = signal.raisedAt earlier := by
  have same : (signal.schedule.filter fun entry => entry.1 ≤ later) =
      signal.schedule.filter fun entry => entry.1 ≤ earlier := by
    refine List.filter_congr fun entry member => ?_
    rw [decide_eq_decide]
    exact ⟨idle entry member, fun early => early.trans ordered⟩
  rw [raisedAt, raisedAt, same]

/-- A flag that comes up after an instant has been put up by an act after it. -/
theorem exists_act (quiet : signal.raisedAt start = false) (after : start ≤ instant)
    (raised : signal.raisedAt instant = true) :
    ∃ time ∈ signal.schedule.map Prod.fst,
      start < time ∧ time ≤ instant ∧ signal.raisedAt time = true := by
  -- The last act that is due at the instant is the one, and nothing happens after it.
  induction instant, after using Nat.le_induction with
  | base =>
      rw [quiet] at raised
      cases raised
  | succ instant after inductionHypothesis =>
      by_cases acted : ∃ entry ∈ signal.schedule, entry.1 = instant + 1
      · obtain ⟨entry, member, same⟩ := acted
        exact ⟨instant + 1, same ▸ List.mem_map_of_mem member, Nat.lt_succ_of_le after, le_rfl,
          raised⟩
      · have idle : signal.raisedAt (instant + 1) = signal.raisedAt instant := by
          refine raisedAt_congr (Nat.le_succ _) fun entry member due => ?_
          refine Nat.le_of_lt_succ (Nat.lt_of_le_of_ne due fun same => ?_)
          exact acted ⟨entry, member, same⟩
        rw [idle] at raised
        obtain ⟨time, member, late, early, up⟩ := inductionHypothesis raised
        exact ⟨time, member, late, early.trans (Nat.le_succ _), up⟩

/-- In a pause without a signal the flag is never up. -/
theorem quiet_of_firstRaised_eq_none (none : signal.firstRaised start stop = none) :
    signal.raisedAt start = false ∧
      ∀ instant, start ≤ instant → instant < stop → signal.raisedAt instant = false := by
  unfold firstRaised at none
  split at none
  · cases none
  · rename_i down
    rw [Bool.not_eq_true] at down
    refine ⟨down, fun instant after before => ?_⟩
    by_contra up
    rw [Bool.not_eq_false] at up
    obtain ⟨time, member, late, early, raised⟩ := exists_act down after up
    refine List.find?_eq_none.mp none time member ?_
    simp only [Bool.and_eq_true, decide_eq_true_eq]
    exact ⟨⟨late, by omega⟩, raised⟩

/-- The signal of a pause is up, and it has not been up earlier in the pause. -/
theorem raised_of_firstRaised_eq_some (some : signal.firstRaised start stop = some instant) :
    signal.raisedAt instant = true ∧ start ≤ instant ∧ (instant = start ∨ instant < stop) ∧
      ∀ earlier, start ≤ earlier → earlier < instant → signal.raisedAt earlier = false := by
  unfold firstRaised at some
  split at some
  · rename_i up
    obtain rfl := Option.some.inj some
    exact ⟨up, le_rfl, .inl rfl, fun earlier after before => by omega⟩
  · rename_i down
    rw [Bool.not_eq_true] at down
    obtain ⟨found, first, last, split, none⟩ := List.find?_eq_some_iff_append.mp some
    simp only [Bool.and_eq_true, decide_eq_true_eq] at found
    refine ⟨found.2, found.1.1.le, .inr found.1.2, fun earlier after before => ?_⟩
    by_contra up
    rw [Bool.not_eq_false] at up
    obtain ⟨time, member, late, early, raised⟩ := exists_act down after up
    -- The act that has put it up is due earlier than the one found, and so stands before it.
    have ordered : (signal.schedule.map Prod.fst).Pairwise (· ≤ ·) :=
      List.pairwise_map.mpr signal.ordered
    rw [split] at member ordered
    rcases List.mem_append.mp member with before | after
    · have refused := none time before
      simp only [Bool.not_eq_true', Bool.and_eq_false_iff, decide_eq_false_iff_not] at refused
      rcases refused with (tooEarly | tooLate) | down
      · exact tooEarly late
      · omega
      · rw [raised] at down
        cases down
    · rcases List.mem_cons.mp after with same | later
      · omega
      · have := (List.pairwise_cons.mp (List.pairwise_append.mp ordered).2.1).1 time later
        omega

/-- A flag that nobody puts up stays down. -/
theorem raisedAt_of_never (never : ∀ entry ∈ signal.schedule, entry.2 ≠ .send true) (time : Nat) :
    signal.raisedAt time = false := by
  have folded : ∀ (acts : List SignalAct), (∀ act ∈ acts, act ≠ .send true) →
      ∀ present, (acts.foldl perform (false, present)).1 = false := by
    intro acts
    induction acts with
    | nil => exact fun _ _ => rfl
    | cons act acts inductionHypothesis =>
        intro others present
        have rest := inductionHypothesis fun other member =>
          others other (List.mem_cons_of_mem _ member)
        rw [List.foldl_cons]
        cases act with
        | drop => exact rest false
        | send value =>
            cases value with
            | true => exact absurd rfl (others _ List.mem_cons_self)
            | false => cases present <;> exact rest _
  refine folded _ (fun act member => ?_) true
  obtain ⟨entry, kept, rfl⟩ := List.mem_map.mp member
  exact never entry (List.mem_filter.mp kept).1

/-- Nobody hears a flag that nobody puts up. -/
theorem firstRaised_of_never (never : ∀ entry ∈ signal.schedule, entry.2 ≠ .send true)
    (start stop : Nat) : signal.firstRaised start stop = none := by
  rw [firstRaised, raisedAt_of_never never, if_neg Bool.false_ne_true, List.find?_eq_none]
  intro time _
  rw [raisedAt_of_never never, Bool.and_false]
  exact Bool.false_ne_true

end Signal
end ShardedStream
