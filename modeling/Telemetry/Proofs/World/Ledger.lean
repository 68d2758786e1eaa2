import Telemetry.Proofs.Timer

/-!
# A ledger of timings

What should become of a timer that is in use: durations are recorded in it, work is timed, watches are
started and ended in any order, and the clock goes forward and back. The ledger says from the clock
alone when each watch was started, and which durations are recorded and when. Each watch that ended is
in it once, with the time from its start to its end.
-/

namespace Telemetry.Timings

/-- What can be done with a timer. -/
inductive Step where
  /-- Record a duration. -/
  | update (nanos : Nat)
  /-- Work that is timed begins. -/
  | enter
  /-- The work that began last is done. -/
  | leave
  /-- Start a watch; watches are numbered from zero in the order of their starts. -/
  | start
  /-- Stop a watch. -/
  | stop (n : Nat)
  /-- Let go of a watch. -/
  | drop (n : Nat)
  | advance (nanos : Nat)
  | rewind (nanos : Nat)
  deriving DecidableEq

/-- A step that ends the watch of a number. -/
def Step.Ends (n : Nat) (s : Step) : Prop := s = .stop n ∨ s = .drop n

/-- Whether a step records a duration that is given. -/
def Step.isUpdate : Step → Bool
  | .update _ => true
  | _ => false

/-- What a duration is recorded for. -/
inductive Source where
  | update
  | work
  /-- The watch of a number. -/
  | watch (n : Nat)
  deriving DecidableEq

/-- A recorded duration with what it is recorded for. -/
structure Entry extends Recording where
  source : Source

/-- What should become of a timer. -/
structure Ledger where
  now : UInt64
  /-- When each watch was started, as long as it runs. -/
  watches : List (Option UInt64)
  /-- When work that is being timed began, the last first. -/
  inner : List UInt64
  /-- The durations in the order in which they are recorded. -/
  entries : List Entry

namespace Ledger

/-- Nothing is timed yet. -/
def start (now : UInt64) : Ledger := ⟨now, [], [], []⟩

/-- Record a duration now. -/
def record (l : Ledger) (source : Source) (nanos : Nat) : Ledger :=
  { l with entries := l.entries ++ [⟨⟨l.now, nanos⟩, source⟩] }

/-- The time between the start of a watch and now is recorded, and the watch ends. -/
def endWatch (l : Ledger) (n : Nat) : Ledger :=
  match l.watches[n]?.join with
  | none => l
  | some started =>
    { l with watches := l.watches.set n none }.record (.watch n) (Pace.elapsed started l.now)

/-- Take down a step. -/
def step (l : Ledger) : Step → Ledger
  | .update nanos => l.record .update nanos
  | .enter => { l with inner := l.now :: l.inner }
  | .leave =>
    match l.inner with
    | [] => l
    | began :: outer => { l with inner := outer }.record .work (Pace.elapsed began l.now)
  | .start => { l with watches := l.watches ++ [some l.now] }
  | .stop n => l.endWatch n
  | .drop n => l.endWatch n
  | .advance nanos => { l with now := l.now + UInt64.ofNat nanos }
  | .rewind nanos =>
    { l with now := if nanos ≤ l.now.toNat then l.now - UInt64.ofNat nanos else l.now }

/-- Take down steps. -/
def run (l : Ledger) (steps : List Step) : Ledger := steps.foldl step l

/-- What durations were recorded for, in order. -/
def sources (l : Ledger) : List Source := l.entries.map Entry.source

end Ledger

variable {l : Ledger}

/-- How many durations there should be of each source: one for each update, for all timed work that is
done and for each watch that ended. -/
def shares (updates done : Nat) (watches : List (Option UInt64)) : Source → Nat
  | .update => updates
  | .work => done
  | .watch n => if watches[n]? = some none then 1 else 0

/-- The books after so many updates, beginnings of timed work and starts of watches: every source has
its share of the durations, and there are none besides. -/
structure Balances (updates entered started : Nat) (sources : List Source) (inner : List UInt64)
    (watches : List (Option UInt64)) : Prop where
  inner_le : inner.length ≤ entered
  started : watches.length = started
  counts : ∀ x, sources.count x = shares updates (entered - inner.length) watches x
  total : sources.length = updates + (entered - inner.length) + watches.count none

section Balances

variable {updates entered started : Nat} {sources : List Source} {inner : List UInt64}
  {watches : List (Option UInt64)}

/-- One more source is counted once. -/
theorem count_concat (sources : List Source) (source x : Source) :
    (sources ++ [source]).count x = sources.count x + if source = x then 1 else 0 := by
  simp [List.count_append, List.count_singleton]

/-- A duration that is given is recorded. -/
theorem Balances.update (h : Balances updates entered started sources inner watches) :
    Balances (updates + 1) entered started (sources ++ [.update]) inner watches := by
  refine ⟨h.inner_le, h.started, ?_, ?_⟩
  · intro x
    rw [count_concat, h.counts]
    cases x with
    | update => rfl
    | work => rfl
    | watch n => rfl
  · rw [List.length_append, List.length_singleton, h.total]
    omega

/-- Work that begins is not done. -/
theorem Balances.enter (h : Balances updates entered started sources inner watches) (now : UInt64) :
    Balances updates (entered + 1) started sources (now :: inner) watches := by
  have hdone : entered + 1 - (now :: inner).length = entered - inner.length := by
    rw [List.length_cons, Nat.add_sub_add_right]
  refine ⟨Nat.succ_le_succ h.inner_le, h.started, ?_, ?_⟩
  · rw [hdone]
    exact h.counts
  · rw [hdone]
    exact h.total

/-- Work that is done is recorded, and is timed no more. -/
theorem Balances.leave {began : UInt64}
    (h : Balances updates entered started sources (began :: inner) watches) :
    Balances updates entered started (sources ++ [.work]) inner watches := by
  have hle : inner.length + 1 ≤ entered := h.inner_le
  have hdone : entered - inner.length = entered - (began :: inner).length + 1 := by
    rw [List.length_cons]
    omega
  refine ⟨Nat.le_of_succ_le hle, h.started, ?_, ?_⟩
  · intro x
    rw [count_concat, h.counts, hdone]
    cases x with
    | update => rfl
    | work => rfl
    | watch n => rfl
  · rw [List.length_append, List.length_singleton, h.total, hdone]
    omega

/-- A watch that is started did not end. -/
theorem Balances.start (h : Balances updates entered started sources inner watches) (now : UInt64) :
    Balances updates entered (started + 1) sources inner (watches ++ [some now]) := by
  refine ⟨h.inner_le, ?_, ?_, ?_⟩
  · rw [List.length_append, h.started, List.length_singleton]
  · intro x
    rw [h.counts]
    cases x with
    | update => rfl
    | work => rfl
    | watch n =>
      rw [shares, shares, List.getElem?_append]
      by_cases hn : n < watches.length
      · rw [if_pos hn]
      · rw [List.getElem?_eq_none (Nat.le_of_not_lt hn), if_neg hn]
        cases n - watches.length with
        | zero => rfl
        | succ i => rfl
  · rw [List.count_append, h.total]
    rfl

/-- A watch that runs is recorded when it ends. -/
theorem Balances.endWatch {n : Nat} {began : UInt64}
    (h : Balances updates entered started sources inner watches)
    (hruns : watches[n]? = some (some began)) :
    Balances updates entered started (sources ++ [.watch n]) inner (watches.set n none) := by
  obtain ⟨hn, hget⟩ := List.getElem?_eq_some_iff.mp hruns
  have hended : (watches.set n none).count none = watches.count none + 1 := by
    rw [List.count_set hn, hget]
    simp
  refine ⟨h.inner_le, ?_, ?_, ?_⟩
  · rw [List.length_set, h.started]
  · intro x
    rw [count_concat, h.counts]
    cases x with
    | update => rfl
    | work => rfl
    | watch m =>
      rw [shares, shares, List.getElem?_set]
      by_cases hm : n = m
      · subst hm
        simp [hn, hget]
      · simp [hm]
  · rw [List.length_append, List.length_singleton, hended, h.total]
    omega

/-- What was recorded, and then one more. -/
theorem sources_record (l : Ledger) (source : Source) (nanos : Nat) :
    (l.record source nanos).sources = l.sources ++ [source] := by
  rw [Ledger.sources, Ledger.record, List.map_append]
  rfl

/-- A watch ends once, if it runs. -/
theorem Balances.ledger_endWatch
    (h : Balances updates entered started l.sources l.inner l.watches) (n : Nat) :
    Balances updates entered started (l.endWatch n).sources (l.endWatch n).inner
      (l.endWatch n).watches := by
  rw [Ledger.endWatch]
  cases hwatch : l.watches[n]?.join with
  | none => exact h
  | some began =>
    dsimp only
    rw [sources_record]
    exact h.endWatch (Option.join_eq_some_iff.mp hwatch)

/-- A step keeps the books in balance. -/
theorem Balances.step (h : Balances updates entered started l.sources l.inner l.watches) (s : Step) :
    Balances (updates + if s.isUpdate then 1 else 0) (entered + if s = .enter then 1 else 0)
      (started + if s = .start then 1 else 0) (l.step s).sources (l.step s).inner
      (l.step s).watches := by
  cases s with
  | update nanos =>
    rw [Ledger.step, sources_record]
    exact h.update
  | enter => exact h.enter l.now
  | leave =>
    rw [Ledger.step]
    cases hinner : l.inner with
    | nil => exact h
    | cons began outer =>
      rw [hinner] at h
      dsimp only
      rw [sources_record]
      exact h.leave
  | start => exact h.start l.now
  | stop n => exact h.ledger_endWatch n
  | drop n => exact h.ledger_endWatch n
  | advance nanos => exact h
  | rewind nanos => exact h

/-- So do any number of steps. -/
theorem Balances.run (h : Balances updates entered started l.sources l.inner l.watches)
    (steps : List Step) :
    Balances (updates + steps.countP Step.isUpdate) (entered + steps.count .enter)
      (started + steps.count .start) (l.run steps).sources (l.run steps).inner
      (l.run steps).watches := by
  induction steps generalizing updates entered started l with
  | nil => exact h
  | cons s rest ih =>
    have hupdates : (s :: rest).countP Step.isUpdate =
        (if s.isUpdate then 1 else 0) + rest.countP Step.isUpdate := by
      rw [List.countP_cons, Nat.add_comm]
    have hcount (x : Step) : (s :: rest).count x = (if s = x then 1 else 0) + rest.count x := by
      rw [List.count_cons, Nat.add_comm]
      simp
    rw [hupdates, hcount, hcount, ← Nat.add_assoc, ← Nat.add_assoc, ← Nat.add_assoc]
    exact ih (h.step s)

end Balances

/-- The books of a ledger in which nothing is recorded are in balance. -/
theorem balances_start (now : UInt64) :
    Balances 0 0 0 (Ledger.start now).sources (Ledger.start now).inner (Ledger.start now).watches :=
  ⟨Nat.le_refl 0, rfl, fun x => by cases x <;> rfl, rfl⟩

/-- From the making of a timer on, the books are in balance after any steps. -/
theorem balances_run (now : UInt64) (steps : List Step) :
    let l := (Ledger.start now).run steps
    Balances (steps.countP Step.isUpdate) (steps.count .enter) (steps.count .start) l.sources l.inner
      l.watches := by
  have hrun := (balances_start now).run steps
  rw [Nat.zero_add, Nat.zero_add, Nat.zero_add] at hrun
  exact hrun

/-- No step takes back what is recorded. -/
theorem mem_entries_step {e : Entry} (h : e ∈ l.entries) (s : Step) : e ∈ (l.step s).entries := by
  have hrecord (l : Ledger) (hl : e ∈ l.entries) (source : Source) (nanos : Nat) :
      e ∈ (l.record source nanos).entries := List.mem_append_left _ hl
  have hend (n : Nat) : e ∈ (l.endWatch n).entries := by
    rw [Ledger.endWatch]
    cases l.watches[n]?.join with
    | none => exact h
    | some started => exact hrecord _ h _ _
  cases s with
  | update nanos => exact hrecord l h _ _
  | leave =>
    rw [Ledger.step]
    cases l.inner with
    | nil => exact h
    | cons began outer => exact hrecord _ h _ _
  | stop n => exact hend n
  | drop n => exact hend n
  | _ => exact h

/-- Nor do any steps. -/
theorem mem_entries_run {e : Entry} (h : e ∈ l.entries) (steps : List Step) :
    e ∈ (l.run steps).entries := by
  induction steps generalizing l with
  | nil => exact h
  | cons s rest ih => exact ih (mem_entries_step h s)

/-- A watch runs on from its start until a step that ends it. -/
theorem watch_step {n : Nat} {started : UInt64} (h : l.watches[n]? = some (some started)) {s : Step}
    (hs : ¬ s.Ends n) : (l.step s).watches[n]? = some (some started) := by
  have hother (i : Nat) (hi : i ≠ n) : (l.endWatch i).watches[n]? = some (some started) := by
    rw [Ledger.endWatch]
    cases l.watches[i]?.join with
    | none => exact h
    | some _ => exact (List.getElem?_set_ne hi).trans h
  cases s with
  | start =>
    have hn : n < l.watches.length := (List.getElem?_eq_some_iff.mp h).1
    exact (List.getElem?_append_left hn).trans h
  | stop i => exact hother i fun hi => hs (.inl (congrArg _ hi))
  | drop i => exact hother i fun hi => hs (.inr (congrArg _ hi))
  | leave =>
    rw [Ledger.step]
    cases l.inner with
    | nil => exact h
    | cons began outer => exact h
  | _ => exact h

/-- So it runs on through any steps that do not end it. -/
theorem watch_run {n : Nat} {started : UInt64} (h : l.watches[n]? = some (some started))
    {steps : List Step} (hsteps : ∀ s ∈ steps, ¬ s.Ends n) :
    (l.run steps).watches[n]? = some (some started) := by
  induction steps generalizing l with
  | nil => exact h
  | cons s rest ih =>
    obtain ⟨hs, hrest⟩ := List.forall_mem_cons.mp hsteps
    exact ih (watch_step h hs) hrest

/-- A watch that ends is recorded then, with the time since its start. -/
theorem mem_entries_of_ends {n : Nat} {started : UInt64} (h : l.watches[n]? = some (some started))
    {s : Step} (hs : s.Ends n) :
    ⟨⟨l.now, Pace.elapsed started l.now⟩, .watch n⟩ ∈ (l.step s).entries := by
  have hend : ⟨⟨l.now, Pace.elapsed started l.now⟩, .watch n⟩ ∈ (l.endWatch n).entries := by
    rw [Ledger.endWatch, h]
    exact List.mem_append_right _ (List.mem_singleton_self _)
  cases hs with
  | inl hstop => exact hstop ▸ hend
  | inr hdrop => exact hdrop ▸ hend

/-- A watch that is started after some steps, and ended by the first step that can, is recorded with
the time between the two. -/
theorem mem_entries_of_started {n : Nat} (hn : n = l.watches.length) {between : List Step}
    {s : Step} (hbetween : ∀ x ∈ between, ¬ x.Ends n) (hs : s.Ends n) (after : List Step) :
    let ended := (l.run (.start :: between)).now
    ⟨⟨ended, Pace.elapsed l.now ended⟩, .watch n⟩ ∈
      (l.run (.start :: (between ++ s :: after))).entries := by
  intro ended
  have hstarted : (l.step .start).watches[n]? = some (some l.now) := by
    rw [hn]
    exact List.getElem?_concat_length
  have hruns := watch_run hstarted hbetween
  have hrun : l.run (.start :: (between ++ s :: after)) =
      (((l.step .start).run between).step s).run after := List.foldl_append
  rw [hrun]
  exact mem_entries_run (mem_entries_of_ends hruns hs) after

/-- A watch that runs while the clock is set back, and one that is let go of while work is timed. -/
example : ((Ledger.start 0).run [.start, .advance 5, .start, .enter, .drop 0, .rewind 3, .stop 1,
    .leave]).entries.map (fun e => (e.source, e.instant, e.nanos)) =
      [(.watch 0, 5, 5), (.watch 1, 2, 0), (.work, 2, 0)] := by decide

end Telemetry.Timings
