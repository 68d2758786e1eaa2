import Telemetry.Proofs.Export.Group
import Telemetry.Proofs.Registry.Consistency

/-!
# Exports are complete

The check of kinds at export time never fires for a registry that honest operations led to: every
live instrument of a selected name is shown, once and in order.
-/

namespace Telemetry.Export

open Registry (HonestlyReachable Operation Registration jobsOf runAll)

/-- An honest registration in a registry of a world keeps it one that honest operations led to. -/
theorem honestlyReachable_registering {w : World} {k : RegistryKey} {g : Registration Store}
    (hr : (w.registry k).HonestlyReachable) (hg : g.Honest) :
    ((w.registering k g.run).2.registry k).HonestlyReachable := by
  rw [World.registering, World.registry_setRegistry]
  split
  · exact hr.step (.register g) hg w.store
  · exact hr

/-- The registration of a counter that is made for it. -/
def counterOf (w : World) (name : String) : Registration Store :=
  .instrument .counter (.name name) [] ⟨w.factory (.counter 0), fun _ => rfl⟩

/-- A world after counters of the given names were registered in its first registry. -/
def withCounters (w : World) : List String → World
  | [] => w
  | name :: rest => withCounters (w.registering ⟨0⟩ (counterOf w name).run).2 rest

/-- A world whose only scope has counters of the given names. -/
def worldOfCounters (names : List String) : World :=
  withCounters ((World.start 1).init "s").2 names

/-- Registering counters keeps a registry one that honest operations led to. -/
theorem honestlyReachable_withCounters {w : World} (hr : (w.registry ⟨0⟩).HonestlyReachable)
    (names : List String) : ((withCounters w names).registry ⟨0⟩).HonestlyReachable := by
  induction names generalizing w with
  | nil => exact hr
  | cons name rest ih => exact ih (honestlyReachable_registering hr trivial)

/-- The registry of counters is one that honest operations led to. -/
theorem honestlyReachable_counters (names : List String) :
    ((worldOfCounters names).registry ⟨0⟩).HonestlyReachable :=
  honestlyReachable_withCounters (w := ((World.start 1).init "s").2) .empty names

variable {r : Registry}

/-- Every live instrument has the kind of its name's metadata, which has the name it is stored under.
So an export of one name or of all, with gauges that remove nothing, leaves nothing out: there is
one group for each selected live name, in the order of names, with the stored metadata, and its
members show exactly the live instruments of the name, once each and in the order of identities. -/
theorem collectGroups_complete (hr : r.HonestlyReachable) :
    (∀ id h, r.instrument? id = some h →
      ∃ m, r.metadataFor? id.name = some m ∧ h.kind = m.kind) ∧
    (∀ name m, r.metadataFor? name = some m → m.name = name) ∧
    ∀ (w : World) (k : RegistryKey) (name? : Option String) (globals : List Tag),
      w.registry k = r →
      (∀ id h, r.instrument? id = some h → name?.all (· == id.name) = true → w.Harmless h) →
      (∀ name, name ∈ r.selectedNames name? ↔
        (∃ id h, r.instrument? id = some h ∧ id.name = name) ∧ name?.all (· == name) = true) ∧
      (r.selectedNames name?).Pairwise (fun a b => compare a b = .lt) ∧
      List.Forall₂
        (fun name g => r.metadataFor? name = some g.metadata ∧
          List.Forall₂ (fun e x => Member.Shows x g.metadata globals e w)
            (r.instrumentsNamed name).toList g.members)
        (r.selectedNames name?) (collectGroups k name? globals w).1 := by
  have hc : r.Coherent := hr.reachable.coherent
  refine ⟨fun id h hl => ?_, fun _ _ hm => hr.agreeing.name_eq hm, fun w k name? globals hw hh => ?_⟩
  · obtain ⟨m, hm⟩ := hc.hasName_iff_metadataFor?.mp (Registry.hasName_of_instrument? hl)
    exact ⟨m, hm, hr.agreeing.kind_eq hl hm⟩
  · subst hw
    refine ⟨fun _ => mem_selectedNames hc, selectedNames_ordered _ _, ?_⟩
    have hselected : ∀ name ∈ (w.registry k).selectedNames name?, name?.all (· == name) = true :=
      fun name hn => ((mem_selectedNames hc).mp hn).2
    have hcovers := (showable_of_honestlyReachable hr hh).collectGroups_covers globals
    refine ((List.forall₂_and_left _ _).mpr ⟨hselected, hcovers⟩).imp fun name g hg => ?_
    obtain ⟨hn, ⟨v, hv, hm⟩, hmembers⟩ := hg
    rw [filter_selected hn] at hmembers
    refine ⟨hv.registry_eq k ▸ hm, hmembers.imp fun e x h => ?_⟩
    obtain ⟨-, u, hu, hshows⟩ := h
    exact hshows.of_undisturbed hu

/-- Two queues and a gauge make two groups. -/
theorem collectGroups_complete_jobs :
    let ops : List (Operation Nat) := [.register (jobsOf "high"), .register (jobsOf "low"),
      .register (.registerGauge (.name "load") [] 0)]
    let r := (runAll .empty 0 ops).1
    let w : World := { ((World.start 1).create (.gauge ⟨1, none⟩)).2 with registries := #[r] }
    r.HonestlyReachable ∧ w.registry ⟨0⟩ = r ∧
      (∀ id h, r.instrument? id = some h → w.Harmless h) ∧
      (collectGroups ⟨0⟩ none [⟨"host", "a"⟩] w).1.length = 2 := by
  intro ops r w
  have hops : ∀ op ∈ ops, op.Honest := by simp [ops, jobsOf, Operation.Honest, Registration.Honest]
  have hr : r.HonestlyReachable := HonestlyReachable.empty.runAll 0 hops
  have hharmless : ∀ id h, r.instrument? id = some h → w.Harmless h := by
    intro _ _ _ serial _
    cases serial <;> rfl
  obtain ⟨-, -, hcollect⟩ := collectGroups_complete hr
  obtain ⟨-, -, hgroups⟩ := hcollect w ⟨0⟩ none [⟨"host", "a"⟩] rfl fun id h hl _ => hharmless id h hl
  exact ⟨hr, rfl, hharmless, hgroups.length_eq.symm⟩

end Telemetry.Export
