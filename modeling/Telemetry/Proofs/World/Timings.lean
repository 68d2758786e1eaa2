import Telemetry.Proofs.Export.Reading
import Telemetry.Proofs.World.Ledger
import Telemetry.World.Stopwatch

/-!
# Every timing is recorded once

Whatever is done with a timer, it holds exactly the durations of the ledger, and the watches that run
are those of the ledger, none of them recorded yet.

Timed work is given by its beginning and its end, with anything in between, so what holds after every
step also holds while work is being timed.
-/

namespace Telemetry.Timings

/-- A world in which a timer is used. -/
structure Bench where
  world : World
  /-- The watches in the order of their starts, as long as they run. -/
  watches : List (Option Stopwatch)
  /-- The watches of work that is being timed, the last one first. -/
  inner : List Stopwatch

namespace Bench

/-- A world in which nothing is timed yet. -/
def start (w : World) : Bench := ⟨w, [], []⟩

/-- The watch of a number, if it runs. -/
def watch? (b : Bench) (n : Nat) : Option Stopwatch := b.watches[n]?.join

/-- End the watch of a number in one way or another, if it runs. -/
def endWatch (b : Bench) (n : Nat) (act : World → Stopwatch → World) : Bench :=
  match b.watch? n with
  | none => b
  | some s => { b with world := act b.world s, watches := b.watches.set n none }

/-- Carry out a step. There is nothing to leave where no work is timed. -/
def step (serial : Nat) (b : Bench) : Step → Bench
  | .update nanos => { b with world := b.world.recordDuration serial nanos }
  | .enter => { b with inner := b.world.startWatch serial :: b.inner }
  | .leave =>
    match b.inner with
    | [] => b
    | s :: outer => { b with world := (b.world.stop s).2, inner := outer }
  | .start => { b with watches := b.watches ++ [some (b.world.startWatch serial)] }
  | .stop n => b.endWatch n fun w s => (w.stop s).2
  | .drop n => b.endWatch n World.release
  | .advance nanos => { b with world := b.world.advance nanos }
  | .rewind nanos => { b with world := (b.world.rewind? nanos).getD b.world }

/-- The bench with other work that is being timed. -/
def withInner (b : Bench) (inner : List Stopwatch) : Bench := { b with inner }

/-- Carry out steps. -/
def run (serial : Nat) (b : Bench) (steps : List Step) : Bench := steps.foldl (step serial) b

/-- Time some work. -/
def time (serial : Nat) (b : Bench) (work : Bench → Bench) : Bench :=
  let (done, world) := b.world.time serial fun world =>
    let done := work { b with world }
    (done, done.world)
  { done with world }

end Bench

/-- A watch that runs since an instant. -/
def running (serial : Nat) (started : UInt64) : Stopwatch := ⟨⟨serial, started⟩, false⟩

/-- A world stands at an instant, and its timer holds the durations of some entries. -/
structure Shows (serial : Nat) (before : Timer) (w : World) (now : UInt64) (entries : List Entry) :
    Prop where
  live : serial < w.store.timers.size
  now_eq : w.now = now
  made : before.Made (entries.map Entry.toRecording) (w.store.timer serial)

/-- A bench is where a ledger says it is. -/
structure Agrees (serial : Nat) (before : Timer) (b : Bench) (l : Ledger) : Prop where
  world : Shows serial before b.world l.now l.entries
  watches : b.watches = l.watches.map (Option.map (running serial))
  inner : b.inner = l.inner.map (running serial)

variable {serial : Nat} {before : Timer} {w : World} {now : UInt64} {entries : List Entry}
  {b : Bench} {l : Ledger}

/-- Stopping a watch that runs records the time since its start, and letting go of it then does
nothing. -/
theorem stop_running (w : World) (serial : Nat) (started : UInt64) :
    (w.stop (running serial started)).2 =
      w.recordDuration serial (Pace.elapsed started w.now) := rfl

/-- Letting go of a watch that runs records the time since its start. -/
theorem release_running (w : World) (serial : Nat) (started : UInt64) :
    w.release (running serial started) =
      w.recordDuration serial (Pace.elapsed started w.now) :=
  (w.stop_eq_release _).symm.trans (stop_running w serial started)

/-- A recorded duration is one more entry. -/
theorem Shows.record (h : Shows serial before w now entries) (source : Source) (nanos : Nat) :
    Shows serial before (w.recordDuration serial nanos) now (entries ++ [⟨⟨now, nanos⟩, source⟩]) := by
  obtain ⟨draw, draws, hrecord⟩ := w.exists_recordDuration serial nanos
  rw [hrecord]
  constructor
  case live =>
    rw [Store.setTimer, Array.size_setIfInBounds]
    exact h.live
  case now_eq => exact h.now_eq
  case made =>
    rw [Store.timer, Store.setTimer, World.getD_setIfInBounds, if_pos ⟨rfl, h.live⟩, h.now_eq,
      List.map_append]
    exact h.made.record ⟨now, nanos⟩ draw

/-- The watch of a number runs where the ledger says so. -/
theorem Agrees.watch?_eq (h : Agrees serial before b l) (n : Nat) :
    b.watch? n = l.watches[n]?.join.map (running serial) := by
  rw [Bench.watch?, h.watches, List.getElem?_map]
  cases l.watches[n]? with
  | none => rfl
  | some watch => rfl

/-- A watch that ends is recorded, and runs no more. -/
theorem Agrees.endWatch (h : Agrees serial before b l) (n : Nat) (act : World → Stopwatch → World)
    (hact : ∀ w started, act w (running serial started) =
      w.recordDuration serial (Pace.elapsed started w.now)) :
    Agrees serial before (b.endWatch n act) (l.endWatch n) := by
  rw [Bench.endWatch, h.watch?_eq n, Ledger.endWatch]
  cases hwatch : l.watches[n]?.join with
  | none => exact h
  | some started =>
    have hset : b.watches.set n none = (l.watches.set n none).map (Option.map (running serial)) := by
      rw [List.map_set, ← h.watches]
      rfl
    have hrecorded := h.world.record (.watch n) (Pace.elapsed started l.now)
    simp only [Option.map_some, hact, h.world.now_eq]
    exact ⟨hrecorded, hset, h.inner⟩

/-- Steps lead where the ledger says. -/
theorem Agrees.step (h : Agrees serial before b l) (s : Step) :
    Agrees serial before (b.step serial s) (l.step s) := by
  have hworld := h.world
  have hstarted : b.world.startWatch serial = running serial l.now :=
    congrArg (running serial) hworld.now_eq
  cases s with
  | update nanos =>
    rw [Bench.step, Ledger.step]
    exact ⟨hworld.record .update nanos, h.watches, h.inner⟩
  | enter =>
    rw [Bench.step, Ledger.step]
    exact ⟨hworld, h.watches, congrArg₂ List.cons hstarted h.inner⟩
  | leave =>
    rw [Bench.step, Ledger.step, h.inner]
    cases hinner : l.inner with
    | nil => exact h
    | cons began outer =>
      have hrecorded := hworld.record .work (Pace.elapsed began l.now)
      simp only [List.map_cons, stop_running, hworld.now_eq]
      exact ⟨hrecorded, h.watches, rfl⟩
  | start =>
    have hwatches : b.watches ++ [some (b.world.startWatch serial)] =
        (l.watches ++ [some l.now]).map (Option.map (running serial)) := by
      rw [List.map_append, ← h.watches, hstarted]
      rfl
    rw [Bench.step, Ledger.step]
    exact ⟨hworld, hwatches, h.inner⟩
  | stop n => exact h.endWatch n (fun w s => (w.stop s).2) fun w => stop_running w serial
  | drop n => exact h.endWatch n World.release fun w => release_running w serial
  | advance nanos =>
    have hnow := congrArg (· + UInt64.ofNat nanos) hworld.now_eq
    rw [Bench.step, Ledger.step]
    exact ⟨⟨hworld.live, hnow, hworld.made⟩, h.watches, h.inner⟩
  | rewind nanos =>
    rw [Bench.step, Ledger.step, World.rewind?, hworld.now_eq]
    split
    · exact ⟨⟨hworld.live, rfl, hworld.made⟩, h.watches, h.inner⟩
    · exact ⟨hworld, h.watches, h.inner⟩

/-- So does any number of steps. -/
theorem Agrees.run (h : Agrees serial before b l) (steps : List Step) :
    Agrees serial before (b.run serial steps) (l.run steps) := by
  induction steps generalizing b l with
  | nil => exact h
  | cons s rest ih => exact ih (h.step s)

/-- Steps in which all timed work that begins is done, and none other. -/
inductive Nested : List Step → Prop
  | nothing : Nested []
  | step {s : Step} {rest : List Step} (henter : s ≠ .enter) (hleave : s ≠ .leave)
    (h : Nested rest) : Nested (s :: rest)
  | work {inside rest : List Step} (hinside : Nested inside) (h : Nested rest) :
    Nested (.enter :: (inside ++ .leave :: rest))

/-- A step that begins and finishes no timed work does not look at any. -/
theorem step_withInner {s : Step} (henter : s ≠ .enter) (hleave : s ≠ .leave) (b : Bench)
    (inner : List Stopwatch) :
    (b.withInner inner).step serial s = (b.step serial s).withInner inner := by
  have hend (n : Nat) (act : World → Stopwatch → World) :
      (b.withInner inner).endWatch n act = (b.endWatch n act).withInner inner := by
    have hwatch : (b.withInner inner).watch? n = b.watch? n := rfl
    rw [Bench.endWatch, Bench.endWatch, hwatch]
    cases b.watch? n with
    | none => rfl
    | some s => rfl
  cases s with
  | enter => contradiction
  | leave => contradiction
  | stop n => exact hend n fun w s => (w.stop s).2
  | drop n => exact hend n World.release
  | _ => rfl

/-- Steps one after the other. -/
theorem run_append (b : Bench) (steps later : List Step) :
    b.run serial (steps ++ later) = (b.run serial steps).run serial later := List.foldl_append

/-- Timed work begins with a watch. -/
theorem step_enter (b : Bench) (inner : List Stopwatch) :
    (b.withInner inner).step serial .enter = b.withInner (b.world.startWatch serial :: inner) := rfl

/-- Timed work is done when its watch is stopped. -/
theorem step_leave (b : Bench) (s : Stopwatch) (outer : List Stopwatch) :
    (b.withInner (s :: outer)).step serial .leave =
      ({ b with world := (b.world.stop s).2 } : Bench).withInner outer := rfl

/-- Nor do steps in which all that begins is done. -/
theorem Nested.run_withInner {steps : List Step} (h : Nested steps) (b : Bench)
    (inner : List Stopwatch) :
    (b.withInner inner).run serial steps = (b.run serial steps).withInner inner := by
  induction h generalizing b inner with
  | nothing => rfl
  | @step s rest henter hleave _ ih =>
    change ((b.withInner inner).step serial s).run serial rest = _
    rw [step_withInner henter hleave]
    exact ih (b.step serial s) inner
  | @work inside rest _ _ ihinside ih =>
    obtain ⟨s, hs⟩ : ∃ s, s = b.world.startWatch serial := ⟨_, rfl⟩
    obtain ⟨done, hdone⟩ : ∃ done : Bench,
      done = { b.run serial inside with world := ((b.run serial inside).world.stop s).2 } := ⟨_, rfl⟩
    -- Whatever is being timed besides, the work that begins here is done before the rest.
    have hwork (inner : List Stopwatch) :
        (b.withInner inner).run serial (.enter :: (inside ++ .leave :: rest)) =
          (done.run serial rest).withInner inner := by
      change ((b.withInner inner).step serial .enter).run serial (inside ++ .leave :: rest) = _
      rw [step_enter, ← hs, run_append, ihinside]
      change (((b.run serial inside).withInner (s :: inner)).step serial .leave).run serial rest = _
      rw [step_leave, ← hdone, ih]
    have hself : b.run serial (.enter :: (inside ++ .leave :: rest)) =
        (done.run serial rest).withInner b.inner := hwork b.inner
    rw [hwork inner, hself]
    rfl

/-- Timing some work is beginning it, doing it and finishing it. -/
theorem Nested.run_work {inside : List Step} (h : Nested inside) (b : Bench) :
    b.run serial (.enter :: (inside ++ [.leave])) = b.time serial (·.run serial inside) := by
  have hinner : (b.run serial inside).inner = b.inner := by
    have hself : b.run serial inside = (b.run serial inside).withInner b.inner :=
      h.run_withInner b b.inner
    rw [hself]
    rfl
  change ((b.withInner b.inner).step serial .enter).run serial (inside ++ [.leave]) = _
  rw [step_enter, run_append, h.run_withInner]
  change ((b.run serial inside).withInner (_ :: b.inner)).step serial .leave = _
  rw [step_leave, ← hinner]
  rfl

/-- A new timer agrees with a ledger in which nothing is recorded. -/
theorem agrees_create (w : World) :
    Agrees w.store.timers.size (.startAt w.now w.capacity) (.start (w.create .timer).2)
      (.start w.now) := by
  have hstore : (w.create .timer).2.store.timers =
      w.store.timers.push (.startAt w.now w.capacity) := rfl
  have htimer : (w.create .timer).2.store.timer w.store.timers.size = .startAt w.now w.capacity := by
    rw [Store.timer, hstore, Array.getD_eq_getD_getElem?, Array.getElem?_push_size]
    rfl
  refine ⟨⟨?_, rfl, ?_⟩, rfl, rfl⟩
  · change w.store.timers.size < (w.create .timer).2.store.timers.size
    rw [hstore, Array.size_push]
    exact Nat.lt_succ_self _
  · change Timer.Made _ [] ((w.create .timer).2.store.timer w.store.timers.size)
    rw [htimer]
    exact .nothing

/-- Whatever is done with a timer from its making on, the timer holds the durations of the ledger, each
recorded once and at its instant, and the watches that run are those of the ledger, none of them
recorded yet. The counts of the timer, of its meter and of its reservoir's pushes are all the number of
updates, of timed work that is done and of watches that ended, modulo `2 ^ 64`, and the total is that of
the recorded durations, each cut at the greatest number of 64 bits. Of the watches that were started,
those that ended were recorded once, and those that run were not; what was recorded is the time on the
clock from the start of the watch to the step that ended it, or nothing if the clock went back. Timing
some work is beginning it, doing it and finishing it, with whatever is done in between. -/
theorem timings_recorded_once (w : World) (steps : List Step) :
    let serial := w.store.timers.size
    let made := Bench.start (w.create .timer).2
    let b := made.run serial steps
    let l := (Ledger.start w.now).run steps
    let t := b.world.store.timer serial
    let recorded := steps.countP Step.isUpdate + (steps.count .enter - l.inner.length) +
      l.watches.count none
    (w.create .timer).1 = .timer serial ∧
      Agrees serial (.startAt w.now w.capacity) b l ∧
      l.entries.length = recorded ∧
      t.count.toNat = recorded % 2 ^ 64 ∧
      t.meter.count.toNat = recorded % 2 ^ 64 ∧
      t.durations.reservoir.pushes.toNat = recorded % 2 ^ 64 ∧
      t.elapsed.toNat = (l.entries.map fun e => min e.nanos Timer.longest).sum % 2 ^ 64 ∧
      l.watches.length = steps.count .start ∧
      (∀ x, l.sources.count x = shares (steps.countP Step.isUpdate)
        (steps.count .enter - l.inner.length) l.watches x) ∧
      (∀ before between after s, steps = before ++ .start :: (between ++ s :: after) →
        s.Ends (before.count .start) → (∀ x ∈ between, ¬ x.Ends (before.count .start)) →
        let started := (made.run serial before).world.now
        let ended := (made.run serial (before ++ .start :: between)).world.now
        ⟨⟨ended, ended.toNat - started.toNat⟩, .watch (before.count .start)⟩ ∈ l.entries) ∧
      ∀ (b : Bench) (inside : List Step), Nested inside →
        b.run serial (.enter :: (inside ++ [.leave])) = b.time serial (·.run serial inside) := by
  intro serial made b l t recorded
  have hrun (steps : List Step) : Agrees serial (.startAt w.now w.capacity) (made.run serial steps)
      ((Ledger.start w.now).run steps) := (agrees_create w).run steps
  have hbalances := balances_run w.now steps
  have hmade := (hrun steps).world.made
  have hrecorded : l.entries.length = recorded := by
    have hlength : l.sources.length = l.entries.length := List.length_map _
    exact hlength.symm.trans hbalances.total
  have hlength : (l.entries.map Entry.toRecording).length = recorded := by
    rw [List.length_map, hrecorded]
  refine ⟨rfl, hrun steps, hrecorded, ?_, ?_, ?_, ?_, hbalances.started, hbalances.counts, ?_,
    fun b inside h => h.run_work b⟩
  · rw [← hlength]
    exact hmade.count
  · rw [← hlength]
    exact hmade.count_meter
  · rw [← hlength]
    exact hmade.pushes
  · have helapsed := hmade.elapsed
    rw [List.map_map] at helapsed
    exact helapsed
  · intro before between after s hsteps hs hbetween started ended
    have hstarts : before.count .start = ((Ledger.start w.now).run before).watches.length :=
      (balances_run w.now before).started.symm
    have hsplit (later : List Step) : (Ledger.start w.now).run (before ++ later) =
        ((Ledger.start w.now).run before).run later := List.foldl_append
    have hstarted : started = ((Ledger.start w.now).run before).now := (hrun before).world.now_eq
    have hended : ended = (((Ledger.start w.now).run before).run (.start :: between)).now := by
      rw [← hsplit]
      exact (hrun (before ++ .start :: between)).world.now_eq
    have hl : l = ((Ledger.start w.now).run before).run (.start :: (between ++ s :: after)) := by
      rw [← hsplit, ← hsteps]
    rw [hl, hstarted, hended]
    exact mem_entries_of_started hstarts hbetween hs after

end Telemetry.Timings
