import Mathlib.Algebra.BigOperators.Ring.List
import Mathlib.Algebra.Ring.Nat
import Telemetry.Proofs.World.Target

/-!
# Threads that count together

Threads ask for a scope, get a counter there by its bare name and add to it, over and over, and their
steps come in any order. A scope is asked for in two steps: it is looked up, and only where the look-up
found nothing it is made, unless another thread has made it meanwhile. The other steps are a
registration and an addition.

How far the threads have come together says what world they are in and what each of them can hold. A
step of one thread leads on from there, and takes nothing from the others.
-/

namespace Telemetry

/-- A thread, by what it does next. The amounts of the rounds that are not over are kept, the current
one first. -/
inductive Thread where
  /-- Look the scope up, if there is another round. -/
  | idle (amounts : List UInt64)
  /-- The look-up found nothing: ask for the scope. -/
  | missed (n : UInt64) (later : List UInt64)
  /-- The registry is at hand: get the counter. -/
  | holding (k : RegistryKey) (n : UInt64) (later : List UInt64)
  /-- The counter is at hand: add to it. -/
  | counting (serial : Nat) (n : UInt64) (later : List UInt64)
  deriving DecidableEq

/-- What a thread is answered. -/
inductive Thread.Event where
  /-- The registry of the scope. -/
  | entered (k : RegistryKey)
  /-- The counter, or why there is none. -/
  | answered (a : Except RegistrationError Handle)

namespace Thread

/-- The amounts that are still to be added. -/
def amounts : Thread → List UInt64
  | .idle amounts => amounts
  | .missed n later | .holding _ n later | .counting _ n later => n :: later

/-- What is still to be added. -/
def owed (x : Thread) : Nat := (x.amounts.map UInt64.toNat).sum

/-- How many answers are still to come: in each round the registry and the counter. -/
def unanswered : Thread → Nat
  | .idle amounts => 2 * amounts.length
  | .missed _ later => 2 * later.length + 2
  | .holding _ _ later => 2 * later.length + 1
  | .counting _ _ later => 2 * later.length

/-- How many steps there are to take at most. -/
def remaining : Thread → Nat
  | .idle amounts => 4 * amounts.length
  | .missed _ later => 4 * later.length + 3
  | .holding _ _ later => 4 * later.length + 2
  | .counting _ _ later => 4 * later.length + 1

/-- What a thread leaves behind after a step. -/
structure Stepped where
  /-- What it was answered, if anything. -/
  events : List Event
  thread : Thread
  world : World

/-- A step of a thread. A round whose registration is refused is over. -/
def step (t : Target) (w : World) : Thread → Stepped
  | .idle [] => ⟨[], .idle [], w⟩
  | .idle (n :: later) =>
    match w.scope? t.scope with
    | some k => ⟨[.entered k], .holding k n later, w⟩
    | none => ⟨[], .missed n later, w⟩
  | .missed n later =>
    let (k, w) := w.init t.scope
    ⟨[.entered k], .holding k n later, w⟩
  | .holding k n later =>
    let (answer, w) := t.ask w k
    match answer with
    | .ok (.counter serial) => ⟨[.answered answer], .counting serial n later, w⟩
    | _ => ⟨[.answered answer], .idle later, w⟩
  | .counting serial n later => ⟨[], .idle later, w.increment serial n⟩

/-- An answer that was given comes no more. -/
theorem unanswered_step (t : Target) (w : World) (x : Thread) :
    (x.step t w).events.length + (x.step t w).thread.unanswered = x.unanswered := by
  cases x with
  | idle amounts =>
    cases amounts with
    | nil => rfl
    | cons n later =>
      simp only [step]
      split <;> simp only [unanswered, List.length_cons, List.length_nil] <;> omega
  | missed n later => exact Nat.add_comm _ _
  | holding k n later =>
    simp only [step]
    split <;> exact Nat.add_comm _ _
  | counting serial n later => exact Nat.zero_add _

/-- A thread takes a step off what it has to do, whatever the others did. -/
theorem remaining_step (t : Target) (w : World) (x : Thread) :
    (x.step t w).thread.remaining ≤ x.remaining - 1 := by
  cases x with
  | idle amounts =>
    cases amounts with
    | nil => exact Nat.le_refl 0
    | cons n later =>
      simp only [step]
      split <;> simp only [remaining, List.length_cons] <;> omega
  | missed n later => exact Nat.le_refl _
  | holding k n later =>
    simp only [step]
    split <;> simp only [remaining] <;> omega
  | counting serial n later => exact Nat.le_refl _

end Thread

/-- Threads in a world. -/
structure Crew where
  world : World
  threads : List Thread
  /-- What they were answered, the latest answer first. -/
  events : List Thread.Event

namespace Crew

/-- Threads that are about to begin, with the amounts of their rounds. -/
def start (w : World) (amounts : List (List UInt64)) : Crew := ⟨w, amounts.map .idle, []⟩

/-- A step of one of the threads. -/
def step (t : Target) (c : Crew) (i : Nat) : Crew :=
  match c.threads[i]? with
  | none => c
  | some x =>
    let o := x.step t c.world
    ⟨o.world, c.threads.set i o.thread, o.events ++ c.events⟩

/-- Steps of the threads in the order of a schedule. -/
def run (t : Target) (c : Crew) (schedule : List Nat) : Crew := schedule.foldl (step t) c

/-- No thread has another round. -/
def Finished (c : Crew) : Prop := ∀ x ∈ c.threads, x = .idle []

end Crew

/-- How far threads have come together. -/
inductive Progress where
  /-- The scope is not live. -/
  | vacant
  /-- The scope has its registry. -/
  | entered
  /-- The counter is registered, at a count. -/
  | bound (count : UInt64)

namespace Progress

variable (t : Target) (w : World)

/-- The world that threads are in. -/
def world : Progress → World
  | .vacant => w
  | .entered => t.entered w
  | .bound x => t.counted w x

/-- The registry that they may hold. -/
def key? : Progress → Option RegistryKey
  | .vacant => none
  | _ => some (t.key w)

/-- The serial number of the counter that they may hold. -/
def serial? : Progress → Option Nat
  | .bound _ => some (Target.serial w)
  | _ => none

/-- What has been added. -/
def count : Progress → Nat
  | .bound x => x.toNat
  | _ => 0

/-- A thread that holds nothing else. -/
def Allows (p : Progress) : Thread → Prop
  | .idle _ | .missed .. => True
  | .holding k _ _ => p.key? t w = some k
  | .counting serial _ _ => p.serial? w = some serial

/-- An answer with nothing else. -/
def Explains (p : Progress) : Thread.Event → Prop
  | .entered k => p.key? t w = some k
  | .answered a => ∃ serial, p.serial? w = some serial ∧ a = .ok (.counter serial)

/-- A live scope has its registry already. -/
def Possible (p : Progress) : Prop := p = .vacant → w.scope? t.scope = none

/-- Progress that keeps what there was. -/
structure Leads (p q : Progress) : Prop where
  key : ∀ k, p.key? t w = some k → q.key? t w = some k
  serial : ∀ n, p.serial? w = some n → q.serial? w = some n

/-- A step of a thread leads from one progress to another. -/
structure Advances (p q : Progress) (x : Thread) (o : Thread.Stepped) : Prop where
  possible : q.Possible t w
  leads : p.Leads t w q
  world : o.world = q.world t w
  allows : q.Allows t w o.thread
  explains : ∀ e ∈ o.events, q.Explains t w e
  /-- What is added is owed no more. -/
  total : (q.count + o.thread.owed) % 2 ^ 64 = (p.count + x.owed) % 2 ^ 64
  /-- Nothing is added before there is a counter. -/
  untouched : q.serial? w = none → o.thread.amounts = x.amounts

variable {t w} {p q : Progress}

/-- Progress that stands still keeps everything. -/
theorem Leads.refl (p : Progress) : p.Leads t w p := ⟨fun _ => id, fun _ => id⟩

/-- What a thread may hold it may hold later. -/
theorem Allows.leads {x : Thread} (hx : p.Allows t w x) (h : p.Leads t w q) : q.Allows t w x := by
  cases x with
  | idle amounts => trivial
  | missed n later => trivial
  | holding k n later => exact h.key k hx
  | counting serial n later => exact h.serial serial hx

/-- What an answer was is right later. -/
theorem Explains.leads {e : Thread.Event} (he : p.Explains t w e) (h : p.Leads t w q) :
    q.Explains t w e := by
  cases e with
  | entered k => exact h.key k he
  | answered a => exact he.imp fun n => And.imp_left (h.serial n)

/-- There is no registry to hold but that of the scope. -/
theorem eq_of_key? {k : RegistryKey} (h : p.key? t w = some k) : k = t.key w := by
  cases p with
  | vacant => contradiction
  | entered => exact (Option.some.inj h).symm
  | bound x => exact (Option.some.inj h).symm

/-- Nor is there another counter. -/
theorem eq_of_serial? {n : Nat} (h : p.serial? w = some n) : n = Target.serial w := by
  cases p with
  | vacant => contradiction
  | entered => contradiction
  | bound x => exact (Option.some.inj h).symm

/-- A look-up finds the registry once it is there. -/
theorem scope?_world (hp : p.Possible t w) : (p.world t w).scope? t.scope = p.key? t w := by
  cases p with
  | vacant => exact hp rfl
  | entered => exact w.scope?_init t.scope
  | bound x => exact t.scope?_counted w x

/-- Asking for the scope makes its registry unless it is there. -/
theorem init_world (p : Progress) :
    ∃ q : Progress, (p.world t w).init t.scope = (t.key w, q.world t w) ∧ q ≠ .vacant ∧
      p.Leads t w q ∧ q.count = p.count ∧ q.serial? w = p.serial? w := by
  cases p with
  | vacant => exact ⟨.entered, rfl, nofun, ⟨nofun, nofun⟩, rfl, rfl⟩
  | entered =>
    exact ⟨.entered, World.init_of_live (w.scope?_init t.scope), nofun, .refl _, rfl, rfl⟩
  | bound x =>
    exact ⟨.bound x, World.init_of_live (t.scope?_counted w x), nofun, .refl _, rfl, rfl⟩

/-- Whoever holds the registry is answered with the one counter. -/
theorem ask_world (hv : t.Vacant w) {k : RegistryKey} (hk : p.key? t w = some k) :
    ∃ x, t.ask (p.world t w) k = (.ok (.counter (Target.serial w)), t.counted w x) ∧
      p.Leads t w (.bound x) ∧ (bound x).count = p.count := by
  cases p with
  | vacant => contradiction
  | entered =>
    obtain rfl := Option.some.inj hk
    exact ⟨0, Target.ask_entered hv, ⟨fun _ => id, nofun⟩, rfl⟩
  | bound x =>
    obtain rfl := Option.some.inj hk
    exact ⟨x, Target.ask_counted hv x, .refl _, rfl⟩

/-- Every step of a thread leads on from where the threads are. -/
theorem exists_advances (hv : t.Vacant w) (hp : p.Possible t w) {x : Thread}
    (hx : p.Allows t w x) : ∃ q, p.Advances t w q x (x.step t (p.world t w)) := by
  have hstill {o : Thread.Stepped} (hworld : o.world = p.world t w) (hallows : p.Allows t w o.thread)
      (hevents : ∀ e ∈ o.events, p.Explains t w e) (hamounts : o.thread.amounts = x.amounts) :
      p.Advances t w p x o :=
    ⟨hp, .refl p, hworld, hallows, hevents, by rw [Thread.owed, hamounts, Thread.owed],
      fun _ => hamounts⟩
  cases x with
  | idle amounts =>
    cases amounts with
    | nil => exact ⟨p, hstill rfl trivial nofun rfl⟩
    | cons n later =>
      refine ⟨p, ?_⟩
      simp only [Thread.step, scope?_world hp]
      cases hk : p.key? t w with
      | none => exact hstill rfl trivial nofun rfl
      | some k =>
        exact hstill rfl hk (List.forall_mem_singleton.mpr hk) rfl
  | missed n later =>
    obtain ⟨q, hinit, hvacant, hleads, hcount, hserial⟩ := init_world (t := t) (w := w) p
    have hkey : q.key? t w = some (t.key w) := by
      cases q with
      | vacant => contradiction
      | entered => rfl
      | bound y => rfl
    refine ⟨q, ?_⟩
    simp only [Thread.step, hinit]
    exact ⟨fun h => absurd h hvacant, hleads, rfl, hkey, List.forall_mem_singleton.mpr hkey,
      by rw [hcount]; rfl, fun _ => rfl⟩
  | holding k n later =>
    obtain ⟨y, hask, hleads, hcount⟩ := ask_world hv hx
    refine ⟨.bound y, ?_⟩
    simp only [Thread.step, hask]
    exact ⟨nofun, hleads, rfl, rfl, List.forall_mem_singleton.mpr ⟨_, rfl, rfl⟩, by rw [hcount]; rfl,
      nofun⟩
  | counting serial n later =>
    cases p with
    | vacant => contradiction
    | entered => contradiction
    | bound y =>
      obtain rfl := Option.some.inj hx
      refine ⟨.bound (y + n), nofun, ⟨fun _ => id, fun _ => id⟩, t.increment_counted w y n, trivial,
        nofun, ?_, nofun⟩
      simp only [Thread.step, Thread.owed, Thread.amounts, count, List.map_cons, List.sum_cons,
        UInt64.toNat_add, Nat.mod_add_mod, Nat.add_assoc]

end Progress

namespace Crew

variable {t : Target} {w : World} {amounts : List (List UInt64)} {c : Crew} {p : Progress}

/-- Threads that have come so far, from a world and with the amounts that they had to add. -/
structure At (t : Target) (w : World) (amounts : List (List UInt64)) (p : Progress) (c : Crew) :
    Prop where
  possible : p.Possible t w
  world : c.world = p.world t w
  allows : ∀ x ∈ c.threads, p.Allows t w x
  explains : ∀ e ∈ c.events, p.Explains t w e
  total : (p.count + (c.threads.map Thread.owed).sum) % 2 ^ 64 =
    (amounts.flatten.map UInt64.toNat).sum % 2 ^ 64
  untouched : p.serial? w = none → c.threads.map Thread.amounts = amounts
  answered : c.events.length + (c.threads.map Thread.unanswered).sum = 2 * amounts.flatten.length

/-- One thread among others is replaced. -/
theorem exists_split {x : Thread} {threads : List Thread} {i : Nat} (h : threads[i]? = some x) :
    ∃ before after, threads = before ++ x :: after ∧
      ∀ y, threads.set i y = before ++ y :: after := by
  obtain ⟨hi, rfl⟩ := List.getElem?_eq_some_iff.mp h
  refine ⟨threads.take i, threads.drop (i + 1), ?_, fun y => List.set_eq_take_cons_drop y hi⟩
  rw [← List.drop_eq_getElem_cons hi, List.take_append_drop]

/-- Threads begin where the scope is, with or without a registry. -/
theorem exists_at_start (t : Target) (w : World) (amounts : List (List UInt64)) :
    ∃ p, At t w amounts p (start w amounts) := by
  have howed : ((start w amounts).threads.map Thread.owed).sum =
      (amounts.flatten.map UInt64.toNat).sum := by
    simp [start, Thread.owed, Thread.amounts, List.map_flatten, List.sum_flatten, Function.comp_def]
  have hamounts : (start w amounts).threads.map Thread.amounts = amounts := by
    simp [start, Function.comp_def, Thread.amounts]
  have hanswered : ((start w amounts).threads.map Thread.unanswered).sum =
      2 * amounts.flatten.length := by
    simp only [start, List.map_map, Function.comp_def, Thread.unanswered, List.length_flatten,
      List.sum_map_mul_left]
  have hidle : ∀ (p : Progress), ∀ x ∈ (start w amounts).threads, p.Allows t w x := by
    simp [start, Progress.Allows]
  cases hs : w.scope? t.scope with
  | none =>
    exact ⟨.vacant, fun _ => hs, rfl, hidle _, nofun, by rw [howed]; simp [Progress.count],
      fun _ => hamounts, (Nat.zero_add _).trans hanswered⟩
  | some k =>
    have hworld : w = t.entered w := congrArg Prod.snd (World.init_of_live hs).symm
    exact ⟨.entered, nofun, hworld, hidle _, nofun, by rw [howed]; simp [Progress.count],
      fun _ => hamounts, (Nat.zero_add _).trans hanswered⟩

/-- A step of one thread leads on from where the threads are. -/
theorem At.exists_step (hv : t.Vacant w) (h : At t w amounts p c) (i : Nat) :
    ∃ q, At t w amounts q (c.step t i) := by
  unfold step
  cases hx : c.threads[i]? with
  | none => exact ⟨p, h⟩
  | some x =>
    have hmem : x ∈ c.threads := List.mem_of_getElem? hx
    obtain ⟨before, after, hthreads, hset⟩ := exists_split hx
    obtain ⟨q, ho⟩ := Progress.exists_advances hv h.possible (h.allows x hmem)
    rw [← h.world] at ho
    refine ⟨q, ho.possible, ho.world, fun y hy => ?_, fun e he => ?_, ?_, fun hq => ?_, ?_⟩
    · obtain hy | rfl := List.mem_or_eq_of_mem_set hy
      · exact (h.allows y hy).leads ho.leads
      · exact ho.allows
    · obtain he | he := List.mem_append.mp he
      · exact ho.explains e he
      · exact (h.explains e he).leads ho.leads
    · have htotal := h.total
      have hstep := ho.total
      rw [hthreads] at htotal
      simp only [hset, List.map_append, List.map_cons, List.sum_append, List.sum_cons] at htotal ⊢
      omega
    · have hp : p.serial? w = none := Option.eq_none_iff_forall_ne_some.mpr fun n hn =>
        Option.some_ne_none n ((ho.leads.serial n hn).symm.trans hq)
      have hsame := h.untouched hp
      rw [hthreads] at hsame
      simp only [hset, List.map_append, List.map_cons, ho.untouched hq] at hsame ⊢
      exact hsame
    · have hanswered := h.answered
      have hstep := x.unanswered_step t c.world
      rw [hthreads] at hanswered
      simp only [hset, List.map_append, List.map_cons, List.sum_append, List.sum_cons,
        List.length_append] at hanswered ⊢
      omega

/-- Steps in any order lead on from where the threads are. -/
theorem At.exists_run (hv : t.Vacant w) (h : At t w amounts p c) (schedule : List Nat) :
    ∃ q, At t w amounts q (c.run t schedule) := by
  induction schedule generalizing p c with
  | nil => exact ⟨p, h⟩
  | cons i rest ih =>
    obtain ⟨q, hq⟩ := h.exists_step hv i
    exact ih hq

/-- What is left to do for a thread. -/
def left (c : Crew) (i : Nat) : Nat := (c.threads[i]?).elim 0 Thread.remaining

/-- A step of one thread leaves the others where they are. -/
theorem left_step (t : Target) (c : Crew) (i j : Nat) :
    (c.step t i).left j ≤ c.left j - if i = j then 1 else 0 := by
  unfold step
  cases hx : c.threads[i]? with
  | none =>
    by_cases hij : i = j
    · simp [left, ← hij, hx]
    · simp [left, hij]
  | some x =>
    simp only [left, List.getElem?_set]
    by_cases hij : i = j
    · subst hij
      obtain ⟨hi, hget⟩ := List.getElem?_eq_some_iff.mp hx
      simpa [hi, hget] using x.remaining_step t c.world
    · simp [hij]

/-- A schedule takes as many steps off a thread as it gives it turns. -/
theorem left_run (t : Target) (c : Crew) (schedule : List Nat) (j : Nat) :
    (c.run t schedule).left j ≤ c.left j - schedule.count j := by
  induction schedule generalizing c with
  | nil => exact Nat.le_refl _
  | cons i rest ih =>
    have hstep := left_step t c i j
    have hrest := ih (c.step t i)
    change ((c.step t i).run t rest).left j ≤ _
    simp only [List.count_cons, beq_iff_eq]
    omega

/-- Threads that have nothing left to do are through. -/
theorem finished_of_left (h : ∀ j, c.left j = 0) : c.Finished := by
  intro x hx
  obtain ⟨j, hj⟩ := List.mem_iff_getElem?.mp hx
  have hzero : x.remaining = 0 := by simpa [left, hj] using h j
  cases x with
  | idle amounts =>
    cases amounts with
    | nil => rfl
    | cons n later => simp [Thread.remaining] at hzero
  | missed n later => simp [Thread.remaining] at hzero
  | holding k n later => simp [Thread.remaining] at hzero
  | counting serial n later => simp [Thread.remaining] at hzero

/-- A schedule that gives every thread four turns a round leads to the end. -/
theorem finished_run (t : Target) (w : World) (amounts : List (List UInt64)) {schedule : List Nat}
    (hturns : ∀ i rounds, amounts[i]? = some rounds → 4 * rounds.length ≤ schedule.count i) :
    ((start w amounts).run t schedule).Finished := by
  refine finished_of_left fun j => Nat.le_zero.mp ((left_run t _ schedule j).trans ?_)
  cases hj : amounts[j]? with
  | none => simp [left, start, hj]
  | some rounds =>
    have hrounds := hturns j rounds hj
    simpa [left, start, hj, Thread.remaining] using Nat.sub_eq_zero_of_le hrounds

/-- A thread that nobody disturbs counts as a session does. -/
theorem world_run_alone (t : Target) (w : World) :
    ((start w [[1]]).run t [0, 0, 0, 0]).world = Session.countOnce t.scope t.name t.tags w := by
  have hstep (v : World) (x : Thread) (es : List Thread.Event) :
      (Crew.mk v [x] es).step t 0 =
        ⟨(x.step t v).world, [(x.step t v).thread], (x.step t v).events ++ es⟩ := rfl
  -- Two steps end the round, whatever the registration is answered with, and more change nothing.
  have hround (k : RegistryKey) (v : World) (es : List Thread.Event) (turns : List Nat)
      (hturns : turns = [0, 0] ∨ turns = [0, 0, 0]) :
      ((Crew.mk v [.holding k 1 []] es).run t turns).world = Target.addTo 1 (t.ask v k) := by
    rcases hask : t.ask v k with ⟨e | h, v'⟩
    · rcases hturns with rfl | rfl <;> simp [run, hstep, Thread.step, hask, Target.addTo]
    · cases h <;> rcases hturns with rfl | rfl <;>
        simp [run, hstep, Thread.step, hask, Target.addTo]
  have hsession : Session.countOnce t.scope t.name t.tags w =
      Target.addTo 1 (t.ask (t.entered w) (t.key w)) := by
    rcases hask : t.ask (t.entered w) (t.key w) with ⟨e | h, v⟩
    all_goals simp only [Target.ask, Target.entered, Target.key] at hask
    · simp only [Session.countOnce, hask, Target.addTo]
    · cases h <;> simp only [Session.countOnce, hask, Target.addTo]
  cases hs : w.scope? t.scope with
  | some k =>
    have hfirst : ((start w [[1]]).run t [0, 0, 0, 0]) =
        (Crew.mk w [.holding k 1 []] [.entered k]).run t [0, 0, 0] := by
      simp [run, start, hstep, Thread.step, hs]
    rw [hsession, hfirst, hround k w _ _ (.inr rfl), Target.entered, Target.key, World.init_of_live hs]
  | none =>
    have hfirst : ((start w [[1]]).run t [0, 0, 0, 0]) =
        (Crew.mk (t.entered w) [.holding (t.key w) 1 []] [.entered (t.key w)]).run t [0, 0] := by
      simp [run, start, hstep, Thread.step, hs, Target.entered, Target.key]
    rw [hsession, hfirst, hround _ _ _ _ (.inl rfl)]

/-- Threads that are through owe nothing and wait for no answer. -/
theorem At.of_finished (h : At t w amounts p c) (hc : c.Finished) (hrounds : amounts.flatten ≠ []) :
    ∃ x, p = .bound x ∧ x.toNat = (amounts.flatten.map UInt64.toNat).sum % 2 ^ 64 ∧
      c.events.length = 2 * amounts.flatten.length := by
  have hnothing {f : Thread → Nat} (hf : f (.idle []) = 0) : (c.threads.map f).sum = 0 :=
    List.sum_eq_zero fun n hn => by
      obtain ⟨x, hx, rfl⟩ := List.mem_map.mp hn
      rw [hc x hx, hf]
  have howed : (c.threads.map Thread.owed).sum = 0 := hnothing rfl
  have hunanswered : (c.threads.map Thread.unanswered).sum = 0 := hnothing rfl
  have hbound : p.serial? w ≠ none := fun hp => by
    refine hrounds (List.flatten_eq_nil_iff.mpr fun l hl => ?_)
    rw [← h.untouched hp] at hl
    obtain ⟨x, hx, rfl⟩ := List.mem_map.mp hl
    rw [hc x hx]
    rfl
  have htotal := h.total
  have hanswered := h.answered
  rw [howed, Nat.add_zero] at htotal
  rw [hunanswered, Nat.add_zero] at hanswered
  cases p with
  | vacant => contradiction
  | entered => contradiction
  | bound x =>
    rw [Progress.count, Nat.mod_eq_of_lt x.toNat_lt] at htotal
    exact ⟨x, rfl, htotal, hanswered⟩

/-- Threads ask for a scope, get a counter by its bare name and add to it, in any number, any number of
times and in any order of their steps. Every one of them is answered with the same registry and with
the same counter. A schedule that gives each of them four turns a round leads to the end. There the
scope has one registry, the name has its metadata and one instrument, nothing else was made, and the
count is what was added, modulo `2 ^ 64`. -/
theorem run_counts (hv : t.Vacant w) (amounts : List (List UInt64)) (schedule : List Nat) :
    let c := (start w amounts).run t schedule
    (∀ e ∈ c.events, e = .entered (t.key w) ∨ e = .answered (.ok (.counter (Target.serial w)))) ∧
    ((∀ i rounds, amounts[i]? = some rounds → 4 * rounds.length ≤ schedule.count i) → c.Finished) ∧
    (c.Finished → amounts.flatten ≠ [] →
      let r := c.world.registry (t.key w)
      c.events.length = 2 * amounts.flatten.length ∧
      c.world.scope? t.scope = some (t.key w) ∧
      c.world.registries.size =
        w.registries.size + (if (w.scope? t.scope).isSome then 0 else 1) ∧
      r.metadataFor? t.name = some (.ofKind t.name .counter) ∧
      (∀ id h, r.instrument? id = some h ∧ id.name = t.name ↔
        id = t.identity ∧ h = .counter (Target.serial w)) ∧
      c.world.store.counters.size = w.store.counters.size + 1 ∧
      (c.world.store.counter (Target.serial w)).toNat =
        (amounts.flatten.map UInt64.toNat).sum % 2 ^ 64) := by
  intro c
  obtain ⟨p, hstart⟩ := exists_at_start t w amounts
  obtain ⟨q, hc⟩ := hstart.exists_run hv schedule
  refine ⟨fun e he => ?_, finished_run t w amounts, fun hfinished hrounds => ?_⟩
  · have hexplain := hc.explains e he
    cases e with
    | entered k =>
      obtain rfl := Progress.eq_of_key? hexplain
      exact .inl rfl
    | answered a =>
      obtain ⟨serial, hserial, rfl⟩ := hexplain
      obtain rfl := Progress.eq_of_serial? hserial
      exact .inr rfl
  · obtain ⟨x, rfl, hx, hanswered⟩ := hc.of_finished hfinished hrounds
    have hworld : c.world = t.counted w x := hc.world
    rw [hworld]
    exact ⟨hanswered, t.scope?_counted w x, t.size_registries_counted w x,
      Target.metadataFor?_counted hv x, Target.instrument?_counted_iff hv x,
      t.size_counters_counted w x, by rw [Target.counter_counted, hx]⟩

/-- Two threads find the scope missing, and a third comes when it is there; what they add goes round. -/
theorem run_counts_shared :
    let t : Target := ⟨.application, "shared", []⟩
    let w := World.start 16
    let amounts : List (List UInt64) := [[3], [4, 0xffffffffffffffff], [5]]
    let schedule := [0, 1, 1, 0, 2, 1, 0, 2, 2, 1, 0, 1, 1, 1, 1, 2, 0, 0, 2, 2, 1, 1, 1, 0]
    let c := (start w amounts).run t schedule
    t.Vacant w ∧ c.Finished ∧ c.world.registries.size = 1 ∧ c.world.store.counters.size = 1 ∧
      (c.world.store.counter 0).toNat = 11 := by
  intro t w amounts schedule
  have hv : t.Vacant w := nofun
  obtain ⟨-, hfinish, hend⟩ := run_counts hv amounts schedule
  have hfinished : ((start w amounts).run t schedule).Finished := hfinish fun i rounds hi => by
    match i with
    | 0 => obtain rfl := Option.some.inj hi; decide
    | 1 => obtain rfl := Option.some.inj hi; decide
    | 2 => obtain rfl := Option.some.inj hi; decide
    | i + 3 => contradiction
  obtain ⟨-, -, hregistries, -, -, hcounters, hcount⟩ := hend hfinished (by decide)
  exact ⟨hv, hfinished, hregistries, hcounters, hcount.trans (by decide)⟩

end Crew

end Telemetry
