import Telemetry.Proofs.Pace.Eager

/-!
# Every event is credited once

A meter hands the events that wait to the first interval that ends, and none to the others that end
with it. Whatever the clock does, forward or back, the counts that were handed to the averages and the
events that still wait make up the count, and as many intervals were taken in as ended by the latest
instant that was seen.
-/

namespace Telemetry.Pace

/-- The counts that `n` intervals take in: the first has the events, the others none. -/
def handedTo : Nat → UInt64 → List UInt64
  | 0, _ => []
  | n + 1, events => events :: handedTo n 0

/-- The later of two instants. -/
def laterOf (seen now : UInt64) : UInt64 := if seen ≤ now then now else seen

/-- The latest of an instant and those of a history. -/
def latest (start : UInt64) (calls : List Call) : UInt64 :=
  calls.foldl (fun seen c => laterOf seen c.instant) start

/-- There is one count for each interval. -/
theorem length_handedTo (n : Nat) (events : UInt64) : (handedTo n events).length = n := by
  induction n generalizing events with
  | zero => rfl
  | succ n ih => rw [handedTo, List.length_cons, ih]

/-- Intervals without events take in nothing. -/
theorem sum_handedTo_zero (n : Nat) : (handedTo n 0).sum = 0 := by
  induction n with
  | zero => rfl
  | succ n ih => rw [handedTo, List.sum_cons, ih, UInt64.add_zero]

/-- Intervals take in the events, if there are any intervals. -/
theorem sum_handedTo (n : Nat) (events : UInt64) :
    (handedTo n events).sum = if n = 0 then 0 else events := by
  cases n with
  | zero => rfl
  | succ n =>
    rw [handedTo, List.sum_cons, sum_handedTo_zero, UInt64.add_zero, if_neg (Nat.succ_ne_zero n)]

namespace Averages

/-- Taking in intervals is taking in their counts one by one. -/
theorem ticks_eq_foldl (a : Averages) (n : Nat) (events : UInt64) :
    a.ticks n events = (handedTo n events).foldl tick a := by
  induction n generalizing a events with
  | zero => rfl
  | succ n ih => rw [ticks, ih, handedTo, List.foldl_cons]

/-- Each of the averages takes in the same counts. -/
theorem foldl_tick (a : Averages) (counts : List UInt64) :
    counts.foldl tick a = ⟨counts.foldl MovingAverage.tick a.one,
      counts.foldl MovingAverage.tick a.five, counts.foldl MovingAverage.tick a.fifteen⟩ := by
  induction counts generalizing a with
  | nil => rfl
  | cons events rest ih =>
    rw [List.foldl_cons, ih]
    rfl

end Averages

namespace Meter

/-- A meter that took in all intervals that ended by the latest instant that was seen, and credited
every event. -/
structure Credits (start seen : UInt64) (counts : List UInt64) (m : Meter) : Prop where
  lastTick : m.lastTick.toNat = boundary start counts.length
  ended : counts.length = intervalsBy start seen
  averages : m.averages = counts.foldl Averages.tick .start
  balance : counts.sum + m.pending = m.count

/-- The counts that a meter hands to each of its averages when it is brought up to date. -/
def handed (m : Meter) (now : UInt64) : List UInt64 := handedTo (m.due now) m.pending

/-- The counts that a meter hands to each of its averages along a history. -/
def handedBy (m : Meter) : List Call → List UInt64
  | [] => []
  | c :: rest => m.handed c.instant ++ handedBy (m.after c) rest

variable {start seen : UInt64} {counts : List UInt64} {m : Meter}

/-- A new meter has credited all of no events. -/
theorem credits_startAt (start : UInt64) : Credits start start [] (startAt start) where
  lastTick := rfl
  ended := by simp [intervalsBy, elapsed]
  averages := rfl
  balance := rfl

/-- Whichever of two instants is the later one decides how many intervals ended. -/
theorem intervalsBy_laterOf (start seen now : UInt64) :
    intervalsBy start (laterOf seen now) =
      intervalsBy start seen + (intervalsBy start now - intervalsBy start seen) := by
  unfold laterOf
  split
  · rename_i hle
    have hmono : intervalsBy start seen ≤ intervalsBy start now := intervalsBy_mono hle
    omega
  · rename_i hgt
    have hmono : intervalsBy start now ≤ intervalsBy start seen :=
      intervalsBy_mono (UInt64.le_of_lt (UInt64.not_le.mp hgt))
    omega

/-- Bringing a meter up to date hands on what waited, if an interval ended, and takes in the intervals
that ended by the later of two instants. -/
theorem Credits.catchUp (h : Credits start seen counts m) (now : UInt64) :
    Credits start (laterOf seen now) (counts ++ m.handed now) (m.catchUp now) := by
  have hlength : (counts ++ m.handed now).length = counts.length + m.due now := by
    rw [List.length_append, handed, length_handedTo]
  have hdue : m.due now = intervalsBy start now - counts.length := due_eq_sub h.lastTick now
  constructor
  case lastTick =>
    rw [lastTick_catchUp, h.lastTick, hlength, boundary, boundary, Nat.mul_add, Nat.add_assoc]
  case ended => rw [hlength, hdue, h.ended, intervalsBy_laterOf]
  case averages =>
    rw [averages_catchUp, Averages.ticks_eq_foldl, h.averages, handed, List.foldl_append]
  case balance =>
    rw [List.sum_append, handed, sum_handedTo, pending_catchUp, count_catchUp, ← h.balance,
      UInt64.add_assoc]
    split
    · rw [UInt64.zero_add]
    · rw [UInt64.add_zero]

/-- Events that are marked wait to be credited. -/
theorem Credits.mark (h : Credits start seen counts m) (now n : UInt64) :
    Credits start (laterOf seen now) (counts ++ m.handed now) (m.mark now n) := by
  have hup := h.catchUp now
  refine ⟨hup.lastTick, hup.ended, hup.averages, ?_⟩
  change _ + ((m.catchUp now).pending + n) = (m.catchUp now).count + n
  rw [← UInt64.add_assoc, hup.balance]

/-- A use of a meter leaves no event out. -/
theorem Credits.after (h : Credits start seen counts m) (c : Call) :
    Credits start (laterOf seen c.instant) (counts ++ m.handed c.instant) (m.after c) := by
  obtain ⟨instant, use⟩ := c
  cases use with
  | mark n => exact h.mark instant n
  | rates => exact h.catchUp instant

/-- Nor does a history. -/
theorem Credits.run (h : Credits start seen counts m) (calls : List Call) :
    Credits start (latest seen calls) (counts ++ m.handedBy calls) (calls.foldl Meter.after m) := by
  induction calls generalizing seen counts m with
  | nil =>
    rw [handedBy, List.append_nil]
    exact h
  | cons c rest ih =>
    have hrest := ih (h.after c)
    rw [List.append_assoc] at hrest
    exact hrest

/-- The count of a history is that of the events it marks. -/
theorem count_foldl_after (m : Meter) (calls : List Call) :
    (calls.foldl Meter.after m).count = m.count + ((marksOf calls).map Mark.events).sum := by
  induction calls generalizing m with
  | nil => exact (UInt64.add_zero _).symm
  | cons c rest ih =>
    rw [List.foldl_cons, ih, marksOf_cons, List.map_append, List.sum_append, ← UInt64.add_assoc]
    obtain ⟨instant, use⟩ := c
    cases use with
    | mark n =>
      have hmarked : (m.after ⟨instant, .mark n⟩).count = m.count + n := count_mark m instant n
      rw [hmarked]
      simp [Call.mark?]
    | rates =>
      have hread : (m.after ⟨instant, .rates⟩).count = m.count := count_rates m instant
      rw [hread]
      simp [Call.mark?]

/-- Along every history, whichever way its instants go, a meter credits every marked event once: the
counts that it handed to each of the averages and the events that still wait make up the count, which
is that of all events marked. The last interval it took in ended as many times five seconds after the
start as it took in intervals, and these are all that ended by the latest instant that was seen.
Nothing of their number is lost with 32 bits, and the end of the last of them is an instant, whenever
the meter is used next. -/
theorem credited_once (start : UInt64) (calls : List Call) :
    let m := calls.foldl after (startAt start)
    let counts := (startAt start).handedBy calls
    m.lastTick.toNat = start.toNat + tickNanos * counts.length ∧
      counts.length = intervalsBy start (latest start calls) ∧
      (∀ now, (UInt32.ofNat (m.due now)).toNat = m.due now ∧
        m.lastTick.toNat + tickNanos * (UInt32.ofNat (m.due now)).toNat < 2 ^ 64) ∧
      m.averages.one = counts.foldl MovingAverage.tick (.overMinutes 1) ∧
      m.averages.five = counts.foldl MovingAverage.tick (.overMinutes 5) ∧
      m.averages.fifteen = counts.foldl MovingAverage.tick (.overMinutes 15) ∧
      counts.sum + m.pending = m.count ∧
      m.count = ((marksOf calls).map Mark.events).sum := by
  intro m counts
  have h : Credits start (latest start calls) counts m := (credits_startAt start).run calls
  have haverages := h.averages
  rw [Averages.foldl_tick] at haverages
  have hcount := count_foldl_after (startAt start) calls
  refine ⟨h.lastTick, h.ended, ?_, ?_, ?_, ?_, h.balance, ?_⟩
  · intro now
    rw [toNat_ofNat_due]
    exact ⟨rfl, lastTick_add_lt m now⟩
  · rw [haverages]
    rfl
  · rw [haverages]
    rfl
  · rw [haverages]
    rfl
  · exact hcount.trans (UInt64.zero_add _)

/-- Two intervals ended when the clock goes back; what is marked then goes to the third. -/
example : (startAt 0).handedBy [⟨1, .mark 3⟩, ⟨12000000000, .rates⟩, ⟨4000000000, .mark 2⟩,
    ⟨15000000000, .rates⟩] = [3, 0, 2] := by decide

end Meter

end Telemetry.Pace
