import Mathlib.Data.UInt
import Telemetry.Proofs.Pace.Meter

/-!
# A meter that keeps up with the clock

The reference for averages that are updated only when a meter is used: averages that take in each
interval of five seconds exactly when it ends, with the events marked in it. Along any history whose
instants do not go back, a meter reads what the reference says. So reading rates early or often
changes no later rate.

A step of an average is taken as it is; what is compared is which steps are made, and with how many
events.
-/

namespace Telemetry.Pace

/-- Events marked at an instant. -/
structure Mark where
  instant : UInt64
  events : UInt64

/-- What is done with a meter. -/
inductive Use where
  | mark (events : UInt64)
  | rates

/-- A use of a meter at an instant. -/
structure Call where
  instant : UInt64
  use : Use

/-- The beginning of an interval, by its number; it is the end of the one before. -/
def boundary (start : UInt64) (n : Nat) : Nat := start.toNat + tickNanos * n

/-- How many intervals ended by an instant. -/
def intervalsBy (start now : UInt64) : Nat := elapsed start now / tickNanos

/-- The events marked in an interval, modulo `2 ^ 64`: at its beginning or later, and before its
end. -/
def eventsIn (start : UInt64) (marks : List Mark) (n : Nat) : UInt64 :=
  ((marks.filter fun m => boundary start n ≤ m.instant.toNat ∧
    m.instant.toNat < boundary start (n + 1)).map Mark.events).sum

/-- Averages that take in each interval when it ends, after the first `n` of them. -/
def eagerAverages (start : UInt64) (marks : List Mark) : Nat → Averages
  | 0 => .start
  | n + 1 => (eagerAverages start marks n).tick (eventsIn start marks n)

/-- The rates of the averages. -/
def Averages.rates (a : Averages) : List Float := [a.one.rate, a.five.rate, a.fifteen.rate]

/-- Those of the rates that are averages. -/
def Rates.averaged (r : Rates) : List Float := [r.oneMinute, r.fiveMinutes, r.fifteenMinutes]

/-- What a use marks. -/
def Call.mark? (c : Call) : Option Mark :=
  match c.use with
  | .mark n => some ⟨c.instant, n⟩
  | .rates => none

/-- When a use reads rates. -/
def Call.reading? (c : Call) : Option UInt64 :=
  match c.use with
  | .mark _ => none
  | .rates => some c.instant

/-- The marks of a history. -/
def marksOf (calls : List Call) : List Mark := calls.filterMap Call.mark?

/-- The instants at which a history reads rates. -/
def readingsOf (calls : List Call) : List UInt64 := calls.filterMap Call.reading?

/-- The instants of a history do not go back, and are not before its beginning. -/
def InOrder (start : UInt64) (calls : List Call) : Prop :=
  (start :: calls.map Call.instant).Pairwise (· ≤ ·)

/-- Marks that were made between the beginning and an instant. -/
structure MadeBy (start : UInt64) (marks : List Mark) (now : UInt64) : Prop where
  start_le : start ≤ now
  instant_le : ∀ m ∈ marks, m.instant ≤ now

namespace Meter

/-- The meter after a use. -/
def after (m : Meter) (c : Call) : Meter :=
  match c.use with
  | .mark n => m.mark c.instant n
  | .rates => (m.rates c.instant).2

/-- The rates that a history reads, in order. -/
def answers (m : Meter) : List Call → List Rates
  | [] => []
  | c :: rest =>
    match c.use with
    | .mark _ => answers (m.after c) rest
    | .rates => (m.rates c.instant).1 :: answers (m.after c) rest

/-- The meter that took in each interval when it ended, as of an instant after the marks. -/
def eager (start : UInt64) (marks : List Mark) (now : UInt64) : Meter where
  start := start
  count := (marks.map Mark.events).sum
  pending := eventsIn start marks (intervalsBy start now)
  lastTick := UInt64.ofNat (boundary start (intervalsBy start now))
  averages := eagerAverages start marks (intervalsBy start now)

end Meter

variable {start now later : UInt64} {marks : List Mark} {n : Nat}

/-- The intervals that ended by an instant are those whose end is not after it. -/
theorem boundary_le_iff (h : start ≤ now) :
    boundary start n ≤ now.toNat ↔ n ≤ intervalsBy start now := by
  have hnat := UInt64.le_iff_toNat_le.mp h
  rw [intervalsBy, Nat.le_div_iff_mul_le (by decide), boundary, elapsed, Nat.mul_comm]
  omega

/-- An instant is before the end of the interval that is open then. -/
theorem lt_boundary (h : start ≤ now) : now.toNat < boundary start (intervalsBy start now + 1) := by
  have hend : ¬ boundary start (intervalsBy start now + 1) ≤ now.toNat := by
    rw [boundary_le_iff h]
    omega
  omega

/-- Later intervals begin later. -/
theorem boundary_mono {i j : Nat} (h : i ≤ j) : boundary start i ≤ boundary start j :=
  Nat.add_le_add_left (Nat.mul_le_mul_left _ h) _

/-- No fewer intervals ended by a later instant. -/
theorem intervalsBy_mono (h : now ≤ later) : intervalsBy start now ≤ intervalsBy start later :=
  Nat.div_le_div_right (Nat.sub_le_sub_right (UInt64.le_iff_toNat_le.mp h) _)

/-- The events of two lists of marks are those of one and of the other. -/
theorem eventsIn_append (start : UInt64) (as bs : List Mark) (n : Nat) :
    eventsIn start (as ++ bs) n = eventsIn start as n + eventsIn start bs n := by
  simp [eventsIn, List.sum_append]

/-- An interval has no events when all marks are before it or after it. -/
theorem eventsIn_eq_zero
    (h : ∀ m ∈ marks,
      m.instant.toNat < boundary start n ∨ boundary start (n + 1) ≤ m.instant.toNat) :
    eventsIn start marks n = 0 := by
  have hnone : (marks.filter fun m => boundary start n ≤ m.instant.toNat ∧
      m.instant.toNat < boundary start (n + 1)) = [] := by
    rw [List.filter_eq_nil_iff]
    intro m hm
    have := h m hm
    simp only [decide_eq_true_eq]
    omega
  rw [eventsIn, hnone]
  rfl

/-- Marks after an interval ended are not taken in with it. -/
theorem eagerAverages_append {later : List Mark}
    (h : ∀ m ∈ later, boundary start n ≤ m.instant.toNat) :
    eagerAverages start (marks ++ later) n = eagerAverages start marks n := by
  induction n with
  | zero => rfl
  | succ n ih =>
    have hbefore : ∀ m ∈ later, boundary start n ≤ m.instant.toNat := fun m hm =>
      Nat.le_trans (boundary_mono (Nat.le_succ n)) (h m hm)
    have hnone : eventsIn start later n = 0 := eventsIn_eq_zero fun m hm => .inr (h m hm)
    rw [eagerAverages, eagerAverages, ih hbefore, eventsIn_append, hnone, UInt64.add_zero]

/-- Intervals without events after the one that is open: only the first of them has any. -/
theorem eagerAverages_add (i : Nat)
    (h : ∀ m ∈ marks, m.instant.toNat < boundary start (n + 1)) :
    eagerAverages start marks (n + i) =
      (eagerAverages start marks n).ticks i (eventsIn start marks n) := by
  induction i with
  | zero => rfl
  | succ i ih =>
    rw [← Nat.add_assoc, eagerAverages, ih, ← Averages.ticks_ticks _ i 1]
    cases i with
    | zero => rfl
    | succ i =>
      have hnone : eventsIn start marks (n + (i + 1)) = 0 := eventsIn_eq_zero fun m hm =>
        .inl (Nat.lt_of_lt_of_le (h m hm) (boundary_mono (by omega)))
      rw [hnone]
      rfl

namespace Meter

/-- The interval that is open now. -/
theorem lastTick_eager (h : start ≤ now) :
    (eager start marks now).lastTick.toNat = boundary start (intervalsBy start now) := by
  have hle := (boundary_le_iff h).mpr (Nat.le_refl (intervalsBy start now))
  have hnow := now.toNat_lt
  rw [eager, UInt64.toNat_ofNat']
  exact Nat.mod_eq_of_lt (by omega)

/-- The intervals that ended since the last one taken in are all that ended but those taken in. -/
theorem due_eq_sub {m : Meter} (h : m.lastTick.toNat = boundary start n) (now : UInt64) :
    m.due now = intervalsBy start now - n := by
  have hspan : elapsed m.lastTick now = elapsed start now - tickNanos * n := by
    rw [elapsed, h, boundary, elapsed]
    omega
  rw [due, hspan, Nat.sub_mul_div, intervalsBy]

/-- The intervals that ended since are those that the clock went past. -/
theorem due_eager (hstart : start ≤ now) (h : now ≤ later) :
    intervalsBy start now + (eager start marks now).due later = intervalsBy start later := by
  rw [due_eq_sub (lastTick_eager hstart)]
  exact Nat.add_sub_cancel' (intervalsBy_mono h)

/-- Bringing the meter up to date leads from one instant to the other. -/
theorem catchUp_eager (hmade : MadeBy start marks now) (h : now ≤ later) :
    (eager start marks now).catchUp later = eager start marks later := by
  obtain ⟨hstart, hmarks⟩ := hmade
  have hdue : _ + (eager start marks now).due later = _ := due_eager hstart h
  -- Every mark is in an interval that ended, or in the one that is open.
  have hopen : ∀ m ∈ marks, m.instant.toNat < boundary start (intervalsBy start now + 1) :=
    fun m hm => Nat.lt_of_le_of_lt (UInt64.le_iff_toNat_le.mp (hmarks m hm)) (lt_boundary hstart)
  refine Meter.ext (by simp [eager]) (by simp [eager]) ?_ ?_ ?_
  · rw [pending_catchUp]
    split
    · rename_i hnone
      rw [hnone] at hdue
      rw [eager, eager, ← hdue]
      rfl
    · refine (eventsIn_eq_zero fun m hm => .inl ?_).symm
      exact Nat.lt_of_lt_of_le (hopen m hm) (boundary_mono (by omega))
  · rw [← UInt64.toNat_inj, lastTick_catchUp, lastTick_eager hstart,
      lastTick_eager (UInt64.le_trans hstart h), ← hdue, boundary, boundary, Nat.mul_add]
    omega
  · rw [averages_catchUp]
    exact (eagerAverages_add _ hopen).symm.trans (congrArg _ hdue)

/-- Marking events adds a mark in the interval that is open. -/
theorem mark_eager (hmade : MadeBy start marks now) (h : now ≤ later) (events : UInt64) :
    (eager start marks now).mark later events = eager start (marks ++ [⟨later, events⟩]) later := by
  have hstart : start ≤ later := UInt64.le_trans hmade.start_le h
  have hbegun : boundary start (intervalsBy start later) ≤ later.toNat :=
    (boundary_le_iff hstart).mpr (Nat.le_refl _)
  rw [mark, catchUp_eager hmade h]
  refine Meter.ext rfl ?_ ?_ rfl ?_
  · simp [eager, List.sum_append]
  · rw [eager, eager, eventsIn_append]
    simp [eventsIn, hbegun, lt_boundary hstart]
  · exact (eagerAverages_append fun m hm => by simpa [List.mem_singleton.mp hm] using hbegun).symm

/-- A new meter has kept up with the clock. -/
theorem startAt_eq_eager (start : UInt64) : startAt start = eager start [] start := by
  have hnone : intervalsBy start start = 0 := by simp [intervalsBy, elapsed]
  refine Meter.ext rfl rfl rfl ?_ ?_
  · rw [← UInt64.toNat_inj, lastTick_eager (UInt64.le_refl start), hnone]
    rfl
  · rw [eager, hnone]
    rfl

end Meter

/-- At its beginning a meter has no marks. -/
theorem madeBy_nil (start : UInt64) : MadeBy start [] start := ⟨UInt64.le_refl start, nofun⟩

/-- A use marks events when it is made. -/
theorem Call.instant_of_mark? {c : Call} {m : Mark} (h : c.mark? = some m) :
    m.instant = c.instant := by
  unfold Call.mark? at h
  split at h
  · rw [← Option.some.inj h]
  · contradiction

/-- Marks stay behind the clock. -/
theorem MadeBy.append {c : Call} (hmade : MadeBy start marks now) (h : now ≤ c.instant) :
    MadeBy start (marks ++ c.mark?.toList) c.instant := by
  refine ⟨UInt64.le_trans hmade.start_le h, fun m hm => ?_⟩
  rcases List.mem_append.mp hm with hm | hm
  · exact UInt64.le_trans (hmade.instant_le m hm) h
  · rw [Call.instant_of_mark? (Option.mem_toList.mp hm)]
    exact UInt64.le_refl _

/-- What is left of a history in order is in order from its first instant on. -/
theorem InOrder.of_cons {c : Call} {rest : List Call} (h : InOrder now (c :: rest)) :
    now ≤ c.instant ∧ InOrder c.instant rest := by
  obtain ⟨hfirst, hrest⟩ := List.pairwise_cons.mp h
  exact ⟨hfirst c.instant List.mem_cons_self, hrest⟩

/-- The beginning of a history in order is in order. -/
theorem InOrder.of_append {before rest : List Call} (h : InOrder now (before ++ rest)) :
    InOrder now before := by
  rw [InOrder, List.map_append, ← List.cons_append] at h
  exact (List.pairwise_append.mp h).1

/-- No mark of a history in order is before its beginning. -/
theorem InOrder.le_instant {calls : List Call} (h : InOrder now calls) :
    ∀ m ∈ marksOf calls, now ≤ m.instant := by
  intro m hm
  obtain ⟨c, hc, hmark⟩ := List.mem_filterMap.mp hm
  rw [Call.instant_of_mark? hmark]
  exact (List.pairwise_cons.mp h).1 _ (List.mem_map_of_mem hc)

/-- The marks of a use and then of a history. -/
theorem marksOf_cons (c : Call) (rest : List Call) :
    marksOf (c :: rest) = c.mark?.toList ++ marksOf rest := by
  cases hm : c.mark? <;> simp [marksOf, hm]

namespace Meter

variable {calls : List Call} {c : Call}

/-- A use leads from one instant to the other and adds its mark, if it is one. -/
theorem after_eager (hmade : MadeBy start marks now) (h : now ≤ c.instant) :
    (eager start marks now).after c = eager start (marks ++ c.mark?.toList) c.instant := by
  obtain ⟨instant, use⟩ := c
  cases use with
  | mark n => exact mark_eager hmade h n
  | rates => simpa [after, rates, Call.mark?] using catchUp_eager hmade h

/-- What is read are the rates of averages that took in each interval when it ended. -/
theorem rates_eager (hmade : MadeBy start marks now) (h : now ≤ later) :
    ((eager start marks now).rates later).1 = (eager start marks later).currentRates later := by
  rw [rates, catchUp_eager hmade h]

/-- A history leads to what keeping up with the clock leads to. -/
theorem foldl_after_eager (hmade : MadeBy start marks now) (hcalls : InOrder now calls) :
    ∃ last, MadeBy start (marks ++ marksOf calls) last ∧
      calls.foldl after (eager start marks now) = eager start (marks ++ marksOf calls) last ∧
      ∀ rest, InOrder now (calls ++ rest) → InOrder last rest := by
  induction calls generalizing marks now with
  | nil =>
    have hnone : marks ++ marksOf [] = marks := List.append_nil marks
    rw [hnone]
    exact ⟨now, hmade, rfl, fun rest h => h⟩
  | cons c calls ih =>
    obtain ⟨hle, hcalls⟩ := hcalls.of_cons
    obtain ⟨last, hlast, hrun, hrest⟩ := ih (hmade.append hle) hcalls
    rw [List.append_assoc, ← marksOf_cons] at hlast hrun
    refine ⟨last, hlast, ?_, fun rest h => hrest rest h.of_cons.2⟩
    rw [List.foldl_cons, after_eager hmade hle, hrun]

/-- The averages that a history reads are those that took in each interval when it ended. -/
theorem averaged_answers_eager (hmade : MadeBy start marks now) (hcalls : InOrder now calls) :
    ((eager start marks now).answers calls).map Rates.averaged =
      (readingsOf calls).map fun t =>
        (eagerAverages start (marks ++ marksOf calls) (intervalsBy start t)).rates := by
  induction calls generalizing marks now with
  | nil => rfl
  | cons c calls ih =>
    obtain ⟨hle, hcalls⟩ := hcalls.of_cons
    have hstep := after_eager hmade hle
    have hrest := ih (hmade.append hle) hcalls
    rw [List.append_assoc, ← marksOf_cons, ← hstep] at hrest
    obtain ⟨instant, use⟩ := c
    cases use with
    | mark n => exact hrest
    | rates =>
      have hbegun : boundary start (intervalsBy start instant) ≤ instant.toNat :=
        (boundary_le_iff (UInt64.le_trans hmade.start_le hle)).mpr (Nat.le_refl _)
      -- Later marks are in intervals that had not ended when the rates were read.
      have hlate : ∀ m ∈ marksOf calls,
          boundary start (intervalsBy start instant) ≤ m.instant.toNat := fun m hm =>
        Nat.le_trans hbegun (UInt64.le_iff_toNat_le.mp (hcalls.le_instant m hm))
      refine List.cons_eq_cons.mpr ⟨?_, hrest⟩
      rw [rates_eager hmade hle]
      exact congrArg Averages.rates (eagerAverages_append hlate).symm

/-- The rates that a history reads do not hang on when the meter was used last. -/
theorem answers_eager_congr (hnow : MadeBy start marks now) (hlater : MadeBy start marks later)
    (hcalls : InOrder now calls) (hcalls' : InOrder later calls) :
    (eager start marks now).answers calls = (eager start marks later).answers calls := by
  cases calls with
  | nil => rw [answers, answers]
  | cons c rest =>
    have hafter : (eager start marks now).after c = (eager start marks later).after c :=
      (after_eager hnow hcalls.of_cons.1).trans (after_eager hlater hcalls'.of_cons.1).symm
    have hrates : ((eager start marks now).rates c.instant).1 =
        ((eager start marks later).rates c.instant).1 :=
      (rates_eager hnow hcalls.of_cons.1).trans (rates_eager hlater hcalls'.of_cons.1).symm
    simp only [answers, hafter, hrates]

/-- Along every history in order, the averages that a meter reads are those of one that takes in each
interval of five seconds when it ends, with the events marked from its beginning on and before its
end. And what is read after two beginnings of a history with the same marks is the same, however
often rates were read before. -/
theorem lazy_eq_eager (start : UInt64) :
    (∀ calls, InOrder start calls →
      ((startAt start).answers calls).map Rates.averaged =
        (readingsOf calls).map fun now =>
          (eagerAverages start (marksOf calls) (intervalsBy start now)).rates) ∧
    ∀ before before' rest, marksOf before = marksOf before' →
      InOrder start (before ++ rest) → InOrder start (before' ++ rest) →
      (before.foldl after (startAt start)).answers rest =
        (before'.foldl after (startAt start)).answers rest := by
  rw [startAt_eq_eager]
  refine ⟨fun calls hcalls => averaged_answers_eager (madeBy_nil start) hcalls, ?_⟩
  intro before before' rest hsame h h'
  obtain ⟨last, hmade, hrun, hrest⟩ := foldl_after_eager (madeBy_nil start) h.of_append
  obtain ⟨last', hmade', hrun', hrest'⟩ := foldl_after_eager (madeBy_nil start) h'.of_append
  rw [hrun, hrun']
  rw [← hsame] at hmade' ⊢
  exact answers_eager_congr hmade hmade' (hrest rest h) (hrest' rest h')

/-- Ten events at the very beginning, and three at the end of the second interval: these are taken in
with the third, and it does not matter whether rates were read in between. -/
theorem lazy_eq_eager_boundary :
    let first : Call := ⟨7, .mark 10⟩
    let early : Call := ⟨9000000007, .rates⟩
    let rest : List Call := [⟨10000000007, .mark 3⟩, ⟨15000000007, .rates⟩]
    InOrder 7 ([first] ++ rest) ∧ InOrder 7 ([first, early] ++ rest) ∧
      marksOf [first] = marksOf [first, early] ∧
      ((startAt 7).answers ([first] ++ rest)).map Rates.averaged =
        [(((Averages.start.tick 10).tick 0).tick 3).rates] ∧
      ([first].foldl after (startAt 7)).answers rest =
        ([first, early].foldl after (startAt 7)).answers rest := by
  intro first early rest
  have h : InOrder 7 ([first] ++ rest) := by simp [InOrder, first, rest]
  have h' : InOrder 7 ([first, early] ++ rest) := by simp [InOrder, first, early, rest]
  obtain ⟨heager, hsame⟩ := lazy_eq_eager 7
  refine ⟨h, h', rfl, (heager _ h).trans ?_, hsame _ _ _ rfl h h'⟩
  let marks : List Mark := [⟨7, 10⟩, ⟨10000000007, 3⟩]
  have hended : intervalsBy 7 15000000007 = 3 := by decide
  have hevents : eventsIn 7 marks 0 = 10 ∧ eventsIn 7 marks 1 = 0 ∧ eventsIn 7 marks 2 = 3 := by
    decide
  change [(eagerAverages 7 marks (intervalsBy 7 15000000007)).rates] = _
  rw [hended, eagerAverages, eagerAverages, eagerAverages, hevents.1, hevents.2.1, hevents.2.2]
  rfl

end Meter

end Telemetry.Pace
