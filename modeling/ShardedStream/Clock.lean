/-!
Time in whole milliseconds. It passes only while somebody waits, and a caller may set an instant
after which it waits no longer.
-/

namespace ShardedStream

structure Clock where
  now : Nat
  limit : Option Nat
  deriving DecidableEq, Repr, Inhabited

/-- Every run starts at time zero with a patient caller. -/
def Clock.start : Clock := ⟨0, none⟩

/--
Waits until an instant and says whether it was reached. A caller out of patience stops at its limit;
whatever happens at the limit itself still happens.
-/
def Clock.wait (clock : Clock) (instant : Nat) : Bool × Clock :=
  if instant ≤ clock.now then (true, clock)
  else
    match clock.limit with
    | none => (true, { clock with now := instant })
    | some limit =>
      if instant ≤ limit then (true, { clock with now := instant })
      else (false, { clock with now := Nat.max clock.now limit })

/-- The last instant at which a caller still waits that has set a timer. -/
def Clock.cutoff (clock : Clock) (timer : Nat) : Nat :=
  match clock.limit with
  | none => timer
  | some limit => min timer (max clock.now limit)

theorem Clock.cutoff_le (clock : Clock) (timer : Nat) : clock.cutoff timer ≤ timer := by
  obtain ⟨now, limit⟩ := clock
  cases limit with
  | none => exact Nat.le_refl timer
  | some limit => exact Nat.min_le_left timer _

/-- A caller reaches the instants up to its cutoff. -/
theorem Clock.wait_iff (clock : Clock) {instant timer : Nat} (ahead : clock.now ≤ instant)
    (set : instant ≤ timer) : (clock.wait instant).1 = true ↔ instant ≤ clock.cutoff timer := by
  obtain ⟨now, limit⟩ := clock
  cases limit with
  | none =>
      simp only [wait, cutoff]
      split <;> simp [set]
  | some limit =>
      have reached : (Clock.wait ⟨now, some limit⟩ instant).1 = true ↔
          instant ≤ now ∨ instant ≤ limit := by
        simp only [wait]
        split
        · simp [*]
        · split <;> simp [*]
      rw [reached]
      simp only [cutoff] at ahead ⊢
      omega

/-- Waiting does not move the cutoff. -/
theorem Clock.cutoff_wait (clock : Clock) (instant timer : Nat) :
    (clock.wait instant).2.cutoff timer = clock.cutoff timer := by
  obtain ⟨now, limit⟩ := clock
  cases limit with
  | none =>
      simp only [wait]
      split <;> rfl
  | some limit =>
      have late : max (Nat.max now limit) limit = max now limit := by
        change max (max now limit) limit = _
        omega
      simp only [wait]
      split
      · rfl
      · split
        · simp only [cutoff]
          omega
        · simp only [cutoff, late]

/-- Time never runs backwards. -/
theorem Clock.now_le_wait (clock : Clock) (instant : Nat) :
    clock.now ≤ (clock.wait instant).2.now := by
  unfold wait
  split
  · exact Nat.le_refl _
  · split
    · simp only
      omega
    · split
      · simp only
        omega
      · exact Nat.le_max_left _ _

/-- A patient caller reaches every instant. -/
theorem Clock.wait_patient (clock : Clock) (instant : Nat) (patient : clock.limit = none) :
    clock.wait instant = (true, ⟨Nat.max clock.now instant, none⟩) := by
  cases clock
  simp only at patient
  subst patient
  unfold wait
  split
  · simp only [Prod.mk.injEq, mk.injEq, true_and, and_true]
    exact (Nat.max_eq_left ‹_›).symm
  · simp only [Prod.mk.injEq, mk.injEq, true_and, and_true]
    exact (Nat.max_eq_right (by simp_all; omega)).symm

end ShardedStream
