import Telemetry.Pace.Meter

/-!
# Meters are brought up to date once

The clock has 64 bits, so fewer intervals fit between two instants than 32 bits can number. Taking in the
intervals that ended therefore leaves none of them, and doing it again at the same instant changes
nothing. Doing it again at a later instant is the same as having waited until then: what was pending
went into the first interval either way.
-/

namespace Telemetry.Pace

/-- Intervals one after the other: after the first of them there are no events left to take in. -/
theorem Averages.ticks_ticks (a : Averages) (i j : Nat) (events : UInt64) :
    (a.ticks i events).ticks j (if i = 0 then events else 0) = a.ticks (i + j) events := by
  induction i generalizing a events with
  | zero => simp [ticks]
  | succ i ih =>
    have hrest := ih (a.tick events) 0
    rw [ite_self] at hrest
    rw [if_neg (Nat.succ_ne_zero i), Nat.add_right_comm, ticks, ticks, hrest]

attribute [ext] Meter

namespace Meter

variable {m : Meter} {now later : UInt64}

/-- The number of intervals that ended has 32 bits. -/
theorem due_lt (m : Meter) (now : UInt64) : m.due now < UInt32.size := by
  have hnow := now.toNat_lt
  have hsize : UInt32.size = 4294967296 := rfl
  have htick : tickNanos = 5000000000 := rfl
  rw [due, elapsed, htick, hsize]
  omega

/-- The intervals that ended fit between the last one taken in and now. -/
theorem tickNanos_mul_due_le (m : Meter) (now : UInt64) :
    tickNanos * m.due now ≤ elapsed m.lastTick now := Nat.mul_div_le _ _

/-- A meter that began keeps its beginning. -/
@[simp] theorem start_catchUp (m : Meter) (now : UInt64) : (m.catchUp now).start = m.start := by
  unfold catchUp
  dsimp only
  split <;> rfl

/-- The averages take in the intervals that ended. -/
theorem averages_catchUp (m : Meter) (now : UInt64) :
    (m.catchUp now).averages = m.averages.ticks (m.due now) m.pending := by
  unfold catchUp
  dsimp only
  split
  · rename_i h
    rw [h]
    rfl
  · rfl

/-- Events wait no longer once an interval took them in. -/
theorem pending_catchUp (m : Meter) (now : UInt64) :
    (m.catchUp now).pending = if m.due now = 0 then m.pending else 0 := by
  unfold catchUp
  dsimp only
  split <;> rfl

/-- Nothing of the number of intervals is lost with 32 bits. -/
theorem toNat_ofNat_due (m : Meter) (now : UInt64) : (UInt32.ofNat (m.due now)).toNat = m.due now := by
  rw [UInt32.toNat_ofNat']
  exact Nat.mod_eq_of_lt (due_lt m now)

/-- The end of the last of the intervals that ended is an instant. -/
theorem lastTick_add_lt (m : Meter) (now : UInt64) :
    m.lastTick.toNat + tickNanos * m.due now < UInt64.size := by
  have hnow := now.toNat_lt_size
  have hlast := m.lastTick.toNat_lt_size
  have hfits := tickNanos_mul_due_le m now
  unfold elapsed at hfits
  omega

/-- The last interval taken in moves on by the intervals that ended. -/
theorem lastTick_catchUp (m : Meter) (now : UInt64) :
    (m.catchUp now).lastTick.toNat = m.lastTick.toNat + tickNanos * m.due now := by
  have hfits := lastTick_add_lt m now
  unfold catchUp
  dsimp only
  split
  · rename_i h
    rw [h]
    rfl
  · have hsize : UInt64.size = 18446744073709551616 := rfl
    rw [UInt64.toNat_add, toNat_ofNat_due, UInt64.toNat_ofNat']
    omega

/-- Intervals that end after a meter was brought up to date are those that it had not taken in. -/
theorem due_catchUp_add (h : now ≤ later) :
    (m.catchUp now).due later + m.due now = m.due later := by
  have hspan : elapsed (m.catchUp now).lastTick later =
      elapsed m.lastTick later - tickNanos * m.due now := by
    rw [elapsed, lastTick_catchUp, elapsed]
    omega
  have hle : tickNanos * m.due now ≤ elapsed m.lastTick later := by
    have hfits := tickNanos_mul_due_le m now
    have hnat := UInt64.le_iff_toNat_le.mp h
    unfold elapsed at hfits ⊢
    omega
  rw [due, hspan, Nat.sub_mul_div, due.eq_1 m later]
  exact Nat.sub_add_cancel ((Nat.le_div_iff_mul_le (by decide)).mpr (Nat.mul_comm _ _ ▸ hle))

/-- What is left after taking in intervals is less than one. -/
theorem due_catchUp (m : Meter) (now : UInt64) : (m.catchUp now).due now = 0 :=
  Nat.add_eq_right.mp (due_catchUp_add (Nat.le_refl now.toNat))

/-- Bringing a meter up to date and then again later is doing it later only. -/
theorem catchUp_catchUp_of_le (h : now ≤ later) :
    (m.catchUp now).catchUp later = m.catchUp later := by
  have hdue : m.due now + (m.catchUp now).due later = m.due later := by
    rw [Nat.add_comm, due_catchUp_add h]
  have hlast : ((m.catchUp now).catchUp later).lastTick = (m.catchUp later).lastTick := by
    rw [← UInt64.toNat_inj, lastTick_catchUp, lastTick_catchUp, lastTick_catchUp, Nat.add_assoc,
      ← Nat.mul_add, hdue]
  have haverages : ((m.catchUp now).catchUp later).averages = (m.catchUp later).averages := by
    rw [averages_catchUp, averages_catchUp, averages_catchUp, pending_catchUp, Averages.ticks_ticks,
      hdue]
  have hpending : ((m.catchUp now).catchUp later).pending = (m.catchUp later).pending := by
    rw [pending_catchUp, pending_catchUp, pending_catchUp, ← hdue]
    by_cases hnone : m.due now = 0
    · simp [hnone]
    · simp [hnone]
  exact Meter.ext (by simp) (by simp) hpending hlast haverages

/-- Bringing a meter up to date twice at one instant is doing it once. -/
theorem catchUp_catchUp (m : Meter) (now : UInt64) :
    (m.catchUp now).catchUp now = m.catchUp now := by
  rw [catchUp, due_catchUp]
  rfl

end Meter

end Telemetry.Pace
