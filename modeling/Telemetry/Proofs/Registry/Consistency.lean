import Telemetry.Proofs.Registry.Operation

/-!
# What every reachable registry guarantees

Whatever was registered and removed before, metadata is there for exactly the names of the live
instruments, a refused registration has changed nothing and has run no factory, and the answer to a
request is decided by what is stored for its name and its identity.
-/

namespace Telemetry.Registry

variable {σ : Type} {r : Registry}

/-- A factory of counters that counts how often it was run. -/
def countingFactory : Factory Nat .counter where
  make n := (.counter n, n + 1)
  kind_make _ := rfl

/-- The registration of a counter of jobs for each queue, which may not be shared. -/
def jobsOf (queue : String) : Registration Nat :=
  .instrument .counter (.metadata { Metadata.ofKind "jobs" .counter with reusable := false })
    [⟨"queue", queue⟩] countingFactory

/-- The registry in which one queue is registered. -/
def oneQueue : Registry := (runAll .empty 0 [.register (jobsOf "high")]).1

/-- A registration leads to it. -/
theorem oneQueue_reachable : oneQueue.Reachable := Reachable.empty.runAll 0 _

/-- The request for a reusable counter of jobs in another unit. -/
def jobsInKilobytes : Request :=
  .explicit { Metadata.ofKind "jobs" .counter with unit := some "kB" }

/-- A name has metadata exactly when an instrument of it is live, the names listed are those of the
identities listed, and there is no instrument exactly when there is no metadata. -/
theorem metadata_iff_live (hr : r.Reachable) :
    (∀ name, (∃ m, r.metadataFor? name = some m) ↔
      ∃ id h, r.instrument? id = some h ∧ id.name = name) ∧
    (∀ name, name ∈ r.names ↔ ∃ id ∈ r.identities, id.name = name) ∧
    (r.isEmpty = true ↔ r.metadata.isEmpty = true) := by
  have hc : r.Coherent := hr.coherent
  refine ⟨fun name => ?_, fun name => ?_, ?_⟩
  · rw [← hc.hasName_iff_metadataFor?, hasName_iff_instrument?]
  · rw [names, Table.mem_keys_iff, hc name, hasName_iff]
  · rw [isEmpty, Table.isEmpty_iff, Table.isEmpty_iff]
    constructor
    · intro h name
      refine hc.metadataFor?_eq_none (Bool.eq_false_iff.mpr fun hn => ?_)
      obtain ⟨id, x, hl, -⟩ := hasName_iff_instrument?.mp hn
      exact Option.some_ne_none x (hl.symm.trans (h id))
    · intro h id
      exact hc.instrument?_eq_none (h id.name)

/-- With two queues registered and one of them removed again, the name is still listed. -/
theorem metadata_iff_live_jobs :
    let r := (runAll .empty 0 [.register (jobsOf "high"), .register (jobsOf "low"),
      .withdraw (.one (jobsOf "high").identity)]).1
    r.Reachable ∧ "jobs" ∈ r.names ∧ (r.isEmpty = true ↔ r.metadata.isEmpty = true) := by
  intro r
  have hr : r.Reachable := Reachable.empty.runAll 0 _
  obtain ⟨-, hnames, hempty⟩ := metadata_iff_live hr
  exact ⟨hr, (hnames "jobs").mpr ⟨(jobsOf "low").identity, by decide, rfl⟩, hempty⟩

/-- A refused registration leaves both tables as they were, and has not run the factory. -/
theorem run_unchanged_of_error (hr : r.Reachable) (g : Registration σ) (s : σ)
    {e : RegistrationError} (he : (g.run r s).answer = .error e) :
    (g.run r s).registry.metadata = r.metadata ∧
      (g.run r s).registry.instruments = r.instruments ∧ (g.run r s).state = s := by
  obtain ⟨e', ho⟩ | ⟨p, live, -, -, -, ho⟩ | ⟨p, -, -, -, ho⟩ := hr.coherent.run_cases g s
  · rw [ho]
    exact ⟨rfl, rfl, rfl⟩
  · rw [ho] at he
    contradiction
  · rw [ho] at he
    contradiction

/-- A queue that is registered already is refused, and no second counter was made for it. -/
theorem run_unchanged_of_error_jobs :
    let o := (jobsOf "high").run oneQueue 1
    oneQueue.Reachable ∧ o.answer = .error (.duplicate (jobsOf "high").identity) ∧
      o.registry.metadata = oneQueue.metadata ∧ o.registry.instruments = oneQueue.instruments ∧
      o.state = 1 := by
  intro o
  have he : o.answer = .error (.duplicate (jobsOf "high").identity) := rfl
  exact ⟨oneQueue_reachable, he, run_unchanged_of_error oneQueue_reachable (jobsOf "high") 1 he⟩

/-- A request succeeds exactly when it is accepted. It fails for the first reason against it, and
nothing changes then. It is answered with the live instrument of the identity, and nothing changes,
or with the factory's, which is registered then; metadata is stored only where there was none. -/
theorem getOrCreate_outcome (hr : r.Reachable) (id : Identity) (request : Request)
    (factory : σ → Handle × σ) (s : σ) :
    let o := r.getOrCreate id request factory s
    ((∃ h, o.answer = .ok h) ↔ r.Accepts id request) ∧
    (∀ e, o.answer = .error e → r.Refuses id request e ∧ o.registry = r ∧ o.state = s) ∧
    (∀ h, o.answer = .ok h →
      (r.instrument? id = some h ∧ o.registry = r ∧ o.state = s) ∨
      (r.instrument? id = none ∧ factory s = (h, o.state) ∧
        (∀ i, o.registry.instrument? i = if i = id then some h else r.instrument? i) ∧
        ∀ name, o.registry.metadataFor? name =
          if name = id.name then some ((r.metadataFor? name).getD (request.metadataFor name))
          else r.metadataFor? name)) := by
  intro o
  have hcases := hr.coherent.getOrCreate_cases id request factory s
  change (∃ e, _ ∧ o = _) ∨ (∃ live, _ ∧ _ ∧ o = _) ∨ (_ ∧ _ ∧ o = _) at hcases
  clear_value o
  obtain ⟨e, hrefuse, rfl⟩ | ⟨live, ha, hl, rfl⟩ | ⟨ha, hl, rfl⟩ := hcases
  · refine ⟨⟨nofun, fun ha => absurd ha hrefuse.not_accepts⟩, fun e' he => ?_, nofun⟩
    obtain rfl := Except.error.inj he
    exact ⟨hrefuse, rfl, rfl⟩
  · refine ⟨⟨fun _ => ha, fun _ => ⟨live, rfl⟩⟩, nofun, fun h hok => .inl ?_⟩
    obtain rfl := Except.ok.inj hok
    exact ⟨hl, rfl, rfl⟩
  · refine ⟨⟨fun _ => ha, fun _ => ⟨_, rfl⟩⟩, nofun, fun h hok => .inr ?_⟩
    obtain rfl := Except.ok.inj hok
    exact ⟨hl, rfl, instrument?_withInstrument r id request _,
      metadataFor?_withInstrument r id request _⟩

/-- A request for jobs in another unit, and reusable, is refused for the unit. -/
theorem getOrCreate_outcome_jobs :
    oneQueue.Reachable ∧
      oneQueue.Refuses (jobsOf "low").identity jobsInKilobytes
        (.metadataConflict "jobs" ⟨.unit, "none", "kB"⟩) ∧
      ¬ oneQueue.Accepts (jobsOf "low").identity jobsInKilobytes := by
  have herror : (oneQueue.getOrCreate (jobsOf "low").identity jobsInKilobytes
      countingFactory.make 1).answer = .error (.metadataConflict "jobs" ⟨.unit, "none", "kB"⟩) :=
    rfl
  obtain ⟨haccept, hrefuse, -⟩ :=
    getOrCreate_outcome oneQueue_reachable (jobsOf "low").identity jobsInKilobytes
      countingFactory.make 1
  refine ⟨oneQueue_reachable, (hrefuse _ herror).1, fun ha => ?_⟩
  obtain ⟨h, hok⟩ := haccept.mpr ha
  rw [herror] at hok
  contradiction

end Telemetry.Registry
