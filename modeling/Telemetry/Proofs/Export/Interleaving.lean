import Mathlib.Data.List.Induction
import Telemetry.Proofs.Export.Group
import Telemetry.Proofs.Registry.Lifetime

/-!
# Exports among registrations and removals

An export reads the table of instruments of a registry once, and later, name by name, the metadata. The
lock is not held in between, so others register and remove meanwhile, as often as they like, and so do
gauges while they are read. Here an export is taken apart into its steps, and anything may happen
between two of them.

The metadata of a name stays what it was as long as an instrument of the name is live. What a group is
shown under is therefore the metadata of the time when the table was read, unless the name was given up
and taken up again before the metadata was looked up. Then the instruments of the table, which are no
longer registered, are shown under the new metadata, if only their kind is right.
-/

namespace Telemetry

open Registry (Operation Moment)

/-- Carry out an operation in one registry. -/
def World.operate (w : World) (k : RegistryKey) (op : Operation Store) : World :=
  let o := op.run (w.registry k) w.store
  { w with store := o.2 }.setRegistry k o.1

/-- What becomes of a registry in one step: metadata stays unless its name is given up. -/
structure Registry.Turned (r s : Registry) : Prop where
  coherent : s.Coherent
  metadata : ∀ {name m}, r.metadataFor? name = some m →
    s.metadataFor? name = some m ∨ s.hasName name = false

section Turned

variable {r : Registry} {w : World}

/-- A registry to which nothing happens keeps its metadata. -/
theorem Registry.Coherent.turned (hc : r.Coherent) : r.Turned r := ⟨hc, .inl⟩

/-- An operation keeps metadata unless the name is given up. -/
theorem Registry.Coherent.turned_run (hc : r.Coherent) (op : Operation Store) (s : Store) :
    r.Turned (op.run r s).1 where
  coherent := hc.run op s
  metadata {name m} hm := by
    let moment : Moment Store := ⟨op, r, s⟩
    cases hleft : moment.after.hasName name with
    | false => exact .inr hleft
    | true =>
      have hstop : moment.silences name = false := by simp [Moment.silences, hleft]
      exact .inl (Moment.metadataFor?_after hc hm hstop)

/-- What is left after a removal was there before. -/
theorem Registry.partOf_run (r : Registry) (v : Registry.Withdrawal) : (v.run r).PartOf r := by
  cases v with
  | one id => exact World.partOf_remove r id
  | named name => exact World.partOf_removeByName r name
  | matching p => exact World.partOf_removeAll r _
  | all => exact ⟨nofun, nofun⟩

/-- Reading an instrument keeps metadata unless a gauge gives up the name. -/
theorem World.turned_readInstrument {k : RegistryKey} (hc : (w.registry k).Coherent)
    (unit : Option String) (h : Handle) :
    (w.registry k).Turned ((Export.readInstrument w unit h).2.registry k) := by
  cases h with
  | counter n => exact hc.turned
  | gauge n =>
    simp only [Export.readInstrument, readGauge]
    split
    · rename_i removal _
      -- The removal is an operation of the registry that it happens in.
      exact setRegistry_cases hc.turned fun hk =>
        hk ▸ hc.turned_run (.withdraw (.named removal.name)) w.store
    · exact hc.turned
  | histogram n => exact hc.turned
  | meter n => exact (undisturbed_meterRates w n).registry_eq k ▸ hc.turned
  | timer n => exact (undisturbed_timerRates w n).registry_eq k ▸ hc.turned

/-- An operation in one registry keeps the metadata of all of them unless a name is given up. -/
theorem World.turned_operate {k : RegistryKey} (hc : (w.registry k).Coherent) (i : RegistryKey)
    (op : Operation Store) : (w.registry k).Turned ((w.operate i op).registry k) :=
  setRegistry_cases hc.turned fun hk => hk ▸ hc.turned_run op w.store

end Turned

namespace Export

/-- How far an export has come. -/
inductive Stage where
  /-- The groups of these names are still to come. -/
  | between (names : List String)
  /-- The group of a name is read under its metadata: some members are there, some instruments are
  left. -/
  | amid (name : String) (metadata : Metadata) (members : List Member)
    (left : List (Identity × Handle)) (names : List String)

/-- An export of a registry that is under way. The table of instruments has been read. -/
structure Passage where
  world : World
  /-- The instruments that were read out of the table. -/
  table : List (Identity × Handle)
  stage : Stage
  /-- The groups that are there. -/
  groups : List Group

/-- What happens next while an export is under way. -/
inductive Turn where
  /-- A step of the export. -/
  | own
  /-- An operation by somebody else, or by a gauge that is read next. -/
  | other (k : RegistryKey) (op : Operation Store)

/-- A turn in which nothing is registered. -/
def Turn.Withdraws : Turn → Prop
  | .own => True
  | .other _ op => op.isWithdrawal = true

namespace Passage

variable (k : RegistryKey) (name? : Option String) (globals : List Tag)

/-- An export that has just read the table. -/
def start (w : World) : Passage :=
  let table := ((w.registry k).selected name?)
  ⟨w, table.toList, .between (distinctNames table.keys), []⟩

/-- A step of the export: look up the metadata of a name, or read an instrument. -/
def step (p : Passage) : Passage :=
  match p.stage with
  | .between [] => p
  | .between (name :: names) =>
    match (p.world.registry k).metadataFor? name with
    | none => { p with stage := .between names }
    | some metadata =>
      { p with stage := .amid name metadata [] (p.table.filter fun e => e.1.name == name) names }
  | .amid _ metadata members [] names =>
    { p with stage := .between names, groups := p.groups ++ [⟨metadata, members⟩] }
  | .amid name metadata members ((id, h) :: left) names =>
    if h.kind != metadata.kind then { p with stage := .between names }
    else
      let (reading, world) := readInstrument p.world metadata.unit h
      let member : Member := ⟨id.tags.withDefaults globals, reading⟩
      { p with world, stage := .amid name metadata (members ++ [member]) left names }

/-- A turn of the export or of somebody else. -/
def turn (p : Passage) : Turn → Passage
  | .own => p.step k globals
  | .other k op => { p with world := p.world.operate k op }

/-- Turns one after the other. -/
def run (p : Passage) (schedule : List Turn) : Passage := schedule.foldl (turn k globals) p

section Metadata

variable {k : RegistryKey} {name? : Option String} {globals : List Tag} {w : World} {p : Passage}

/-- A step of an export keeps metadata unless a gauge gives up its name. -/
theorem turned_step (hc : (p.world.registry k).Coherent) :
    (p.world.registry k).Turned ((p.step k globals).world.registry k) := by
  unfold step
  split
  · exact hc.turned
  · split <;> exact hc.turned
  · exact hc.turned
  · split
    · exact hc.turned
    · exact World.turned_readInstrument hc _ _

/-- Every turn keeps metadata unless the name is given up. -/
theorem turned_turn (hc : (p.world.registry k).Coherent) (t : Turn) :
    (p.world.registry k).Turned ((p.turn k globals t).world.registry k) := by
  cases t with
  | own => exact turned_step hc
  | other i op => exact World.turned_operate hc i op

/-- The last turn of a schedule. -/
theorem run_concat (p : Passage) (schedule : List Turn) (t : Turn) :
    p.run k globals (schedule ++ [t]) = (p.run k globals schedule).turn k globals t :=
  List.foldl_concat ..

/-- The registry of an export stays coherent. -/
theorem coherent_run (hc : (p.world.registry k).Coherent) (schedule : List Turn) :
    ((p.run k globals schedule).world.registry k).Coherent := by
  induction schedule using List.reverseRecOn with
  | nil => exact hc
  | append_singleton schedule t ih =>
    rw [run_concat]
    exact (turned_turn ih t).coherent

/-- Metadata is what it was at first, unless the name was given up at some time since. -/
theorem metadata_run (hc : (p.world.registry k).Coherent) {name : String} {m : Metadata}
    (hm : (p.world.registry k).metadataFor? name = some m) (schedule : List Turn) :
    ((p.run k globals schedule).world.registry k).metadataFor? name = some m ∨
      ∃ earlier, earlier <+: schedule ∧
        ((p.run k globals earlier).world.registry k).hasName name = false := by
  induction schedule using List.reverseRecOn with
  | nil => exact .inl hm
  | append_singleton schedule t ih =>
    obtain hkept | ⟨earlier, hearlier, hlapse⟩ := ih
    · obtain hlater | hlapse := (turned_turn (coherent_run hc schedule) t).metadata hkept
      · exact .inl (run_concat p schedule t ▸ hlater)
      · exact .inr ⟨_, List.prefix_rfl, run_concat p schedule t ▸ hlapse⟩
    · exact .inr ⟨earlier, hearlier.trans (List.prefix_append _ _), hlapse⟩

/-- Without a registration no entry comes in. -/
theorem partOf_turn (p : Passage) {t : Turn} (ht : t.Withdraws) :
    ((p.turn k globals t).world.registry k).PartOf (p.world.registry k) := by
  cases t with
  | own =>
    simp only [turn, step]
    split
    · exact ⟨id, id⟩
    · split <;> exact ⟨id, id⟩
    · exact ⟨id, id⟩
    · split
      · exact ⟨id, id⟩
      · exact World.shrunk_readInstrument _ _ _ k
  | other i op =>
    cases op with
    | register g => contradiction
    | withdraw v =>
      exact World.setRegistry_cases (P := fun r => r.PartOf (p.world.registry k)) ⟨id, id⟩ fun hk =>
        hk ▸ Registry.partOf_run _ v

/-- Without registrations metadata is what it was at first. -/
theorem metadata_of_withdrawals {schedule : List Turn} (hw : ∀ t ∈ schedule, t.Withdraws)
    {name : String} {m : Metadata}
    (hm : ((p.run k globals schedule).world.registry k).metadataFor? name = some m) :
    (p.world.registry k).metadataFor? name = some m := by
  induction schedule using List.reverseRecOn with
  | nil => exact hm
  | append_singleton schedule t ih =>
    rw [run_concat] at hm
    exact ih (fun t ht => hw t (List.mem_append_left _ ht))
      ((partOf_turn _ (hw t (by simp))).metadata hm)

/-- The metadata of a name was looked up in the course of a schedule: at its time it was there, and was
what it had been at first, unless the name had been given up before. -/
def LookedUp (k : RegistryKey) (globals : List Tag) (p : Passage) (schedule : List Turn)
    (name : String) (metadata : Metadata) : Prop :=
  ∃ earlier later, schedule = earlier ++ .own :: later ∧
    ((p.run k globals earlier).world.registry k).metadataFor? name = some metadata ∧
    ((p.world.registry k).metadataFor? name = some metadata ∨
      ∃ lapse, lapse <+: earlier ∧
        ((p.run k globals lapse).world.registry k).hasName name = false)

/-- An instrument was read in the course of a schedule. -/
def Read (k : RegistryKey) (globals : List Tag) (p : Passage) (schedule : List Turn)
    (metadata : Metadata) (e : Identity × Handle) (x : Member) : Prop :=
  e.2.kind = metadata.kind ∧ ∃ earlier, earlier <+: schedule ∧
    Member.Shows x metadata globals e (p.run k globals earlier).world

/-- A group that is there: the instruments of one name in the table, all of the kind of the metadata
that was looked up. -/
def Rendered (k : RegistryKey) (globals : List Tag) (p : Passage) (schedule : List Turn) (g : Group) :
    Prop :=
  ∃ name, LookedUp k globals p schedule name g.metadata ∧
    List.Forall₂ (Read k globals p schedule g.metadata) (p.table.filter fun e => e.1.name == name)
      g.members

/-- What was looked up in the course of a schedule was so in that of a longer one. -/
theorem LookedUp.concat {schedule : List Turn} {name : String} {m : Metadata}
    (h : LookedUp k globals p schedule name m) (t : Turn) :
    LookedUp k globals p (schedule ++ [t]) name m := by
  obtain ⟨earlier, later, rfl, h⟩ := h
  exact ⟨earlier, later ++ [t], by rw [List.append_assoc, List.cons_append], h⟩

/-- So with what was read. -/
theorem Read.concat {schedule : List Turn} {m : Metadata} {e : Identity × Handle} {x : Member}
    (h : Read k globals p schedule m e x) (t : Turn) : Read k globals p (schedule ++ [t]) m e x := by
  obtain ⟨hkind, earlier, hearlier, h⟩ := h
  exact ⟨hkind, earlier, hearlier.trans (List.prefix_append _ _), h⟩

/-- So with groups. -/
theorem Rendered.concat {schedule : List Turn} {g : Group} (h : Rendered k globals p schedule g)
    (t : Turn) : Rendered k globals p (schedule ++ [t]) g := by
  obtain ⟨name, hm, hmembers⟩ := h
  exact ⟨name, hm.concat t, hmembers.imp fun _ _ hx => hx.concat t⟩

/-- The group that is being read is right so far. -/
def Pending (k : RegistryKey) (globals : List Tag) (p : Passage) (schedule : List Turn) :
    Stage → Prop
  | .between _ => True
  | .amid name metadata members left _ =>
    LookedUp k globals p schedule name metadata ∧
      ∃ done, (p.table.filter fun e => e.1.name == name) = done ++ left ∧
        List.Forall₂ (Read k globals p schedule metadata) done members

/-- So with the group that is being read. -/
theorem Pending.concat {schedule : List Turn} {stage : Stage}
    (h : Pending k globals p schedule stage) (t : Turn) :
    Pending k globals p (schedule ++ [t]) stage := by
  cases stage with
  | between names => trivial
  | amid name metadata members left names =>
    obtain ⟨hm, done, hdone, hmembers⟩ := h
    exact ⟨hm.concat t, done, hdone, hmembers.imp fun _ _ hx => hx.concat t⟩

/-- What an export has come to in the course of a schedule. -/
structure Sound (k : RegistryKey) (globals : List Tag) (p : Passage) (schedule : List Turn)
    (q : Passage) : Prop where
  table : q.table = p.table
  pending : Pending k globals p schedule q.stage
  groups : ∀ g ∈ q.groups, Rendered k globals p schedule g

/-- What an export has come to is not undone. -/
theorem Sound.concat {schedule : List Turn} {q : Passage} (h : Sound k globals p schedule q) (t : Turn) :
    Sound k globals p (schedule ++ [t]) q :=
  ⟨h.table, h.pending.concat t, fun g hg => (h.groups g hg).concat t⟩

/-- Metadata that is looked up now. -/
theorem lookedUp_now (hc : (p.world.registry k).Coherent) {schedule : List Turn} {name : String}
    {m : Metadata}
    (hm : ((p.run k globals schedule).world.registry k).metadataFor? name = some m) :
    LookedUp k globals p (schedule ++ [.own]) name m := by
  refine ⟨schedule, [], rfl, hm, ?_⟩
  cases hfirst : (p.world.registry k).metadataFor? name with
  | none =>
    refine .inr ⟨[], List.nil_prefix, Bool.eq_false_iff.mpr fun hn => ?_⟩
    obtain ⟨m', hm'⟩ := hc.hasName_iff_metadataFor?.mp hn
    exact Option.some_ne_none m' (hm'.symm.trans hfirst)
  | some m' =>
    have hrun : ((p.run k globals schedule).world.registry k).metadataFor? name = some m' ∨ _ :=
      metadata_run hc hfirst schedule
    obtain hkept | hlapse := hrun
    · exact .inl (hkept.symm.trans hm)
    · exact .inr hlapse

/-- A step of an export adds to it what is right. -/
theorem Sound.step (hc : (p.world.registry k).Coherent) {schedule : List Turn}
    (h : Sound k globals p schedule (p.run k globals schedule)) :
    Sound k globals p (schedule ++ [.own]) ((p.run k globals schedule).step k globals) := by
  have hkept := h.concat .own
  cases hs : (p.run k globals schedule).stage with
  | between names =>
    cases names with
    | nil => simpa only [Passage.step, hs] using hkept
    | cons name names =>
      simp only [Passage.step, hs]
      split
      · exact ⟨h.table, trivial, hkept.groups⟩
      · rename_i m hm
        exact ⟨h.table, ⟨lookedUp_now hc hm, [], by rw [h.table]; rfl, .nil⟩, hkept.groups⟩
  | amid name metadata members left names =>
    have hpending := hkept.pending
    rw [hs] at hpending
    obtain ⟨hm, done, hdone, hmembers⟩ := hpending
    cases left with
    | nil =>
      simp only [Passage.step, hs]
      refine ⟨h.table, trivial, fun g hg => ?_⟩
      obtain hg | hg := List.mem_append.mp hg
      · exact hkept.groups g hg
      · obtain rfl := List.mem_singleton.mp hg
        exact ⟨name, hm, by rwa [hdone, List.append_nil]⟩
    | cons e left =>
      obtain ⟨id, x⟩ := e
      simp only [Passage.step, hs]
      split
      · exact ⟨h.table, trivial, hkept.groups⟩
      · rename_i hkind
        have hread : Read k globals p (schedule ++ [.own]) metadata (id, x)
            ⟨id.tags.withDefaults globals,
              (readInstrument (p.run k globals schedule).world metadata.unit x).1⟩ :=
          ⟨by simpa using hkind, schedule, List.prefix_append _ _, rfl, rfl⟩
        refine ⟨h.table, ⟨hm, done ++ [(id, x)], ?_, ?_⟩, hkept.groups⟩
        · rw [hdone, List.append_assoc, List.singleton_append]
        · exact List.rel_append hmembers (.cons hread .nil)

/-- Whatever the schedule, what an export has come to is right. -/
theorem Sound.run (hc : (p.world.registry k).Coherent)
    (hstart : Sound k globals p [] p) (schedule : List Turn) :
    Sound k globals p schedule (p.run k globals schedule) := by
  induction schedule using List.reverseRecOn with
  | nil => exact hstart
  | append_singleton schedule t ih =>
    rw [run_concat]
    cases t with
    | own => exact ih.step hc
    | other i op =>
      have hkept := ih.concat (.other i op)
      exact ⟨hkept.table, hkept.pending, hkept.groups⟩

end Metadata

section Alone

variable {k : RegistryKey} {globals : List Tag} {p q : Passage}

/-- The export alone leads from one point to another. -/
def Alone (k : RegistryKey) (globals : List Tag) (p q : Passage) : Prop :=
  ∃ n, p.run k globals (List.replicate n .own) = q

/-- A step of the export and what it leads to alone. -/
theorem Alone.head (h : Alone k globals (p.step k globals) q) : Alone k globals p q := by
  obtain ⟨n, hn⟩ := h
  exact ⟨n + 1, hn⟩

/-- What the export leads to alone, one stretch after the other. -/
theorem Alone.trans {q' : Passage} (h : Alone k globals p q) (h' : Alone k globals q q') :
    Alone k globals p q' := by
  obtain ⟨n, rfl⟩ := h
  obtain ⟨n', rfl⟩ := h'
  refine ⟨n + n', ?_⟩
  rw [List.replicate_add]
  exact List.foldl_append ..

/-- Alone, an export reads the members of a group one after the other. -/
theorem alone_members (w : World) (table : List (Identity × Handle)) (name : String)
    (metadata : Metadata) (members : List Member) (left : List (Identity × Handle))
    (names : List String) (groups : List Group) :
    Alone k globals ⟨w, table, .amid name metadata members left names, groups⟩
      ⟨(readMembers metadata globals w left).2, table, .between names,
        groups ++ match (readMembers metadata globals w left).1 with
          | .ok rest => [⟨metadata, members ++ rest⟩]
          | .error _ => []⟩ := by
  induction left generalizing w members with
  | nil =>
    refine .head ⟨0, ?_⟩
    simp [run, step, readMembers]
  | cons e left ih =>
    obtain ⟨id, h⟩ := e
    by_cases hk : h.kind = metadata.kind
    · refine .head ?_
      have hrest := ih (readInstrument w metadata.unit h).2
        (members ++ [⟨id.tags.withDefaults globals, (readInstrument w metadata.unit h).1⟩])
      simp only [step, readMembers, hk, bne_self_eq_false, Bool.false_eq_true, if_false]
      cases hm : (readMembers metadata globals (readInstrument w metadata.unit h).2 left).1 with
      | error e => simpa [hm, Except.map] using hrest
      | ok rest => simpa [hm, Except.map] using hrest
    · refine .head ⟨0, ?_⟩
      simp [run, step, readMembers, hk]

/-- Alone, an export reads the groups one after the other. -/
theorem alone_groups (w : World) (table : List (Identity × Handle)) (names : List String)
    (groups : List Group) :
    Alone k globals ⟨w, table, .between names, groups⟩
      ⟨(readGroups k globals table w names).2, table, .between [],
        groups ++ (readGroups k globals table w names).1⟩ := by
  induction names generalizing w groups with
  | nil => exact ⟨0, by simp [run, readGroups]⟩
  | cons name names ih =>
    refine .head ?_
    cases hm : (w.registry k).metadataFor? name with
    | none =>
      have hrest := ih w groups
      simpa [step, readGroups, readGroup, hm] using hrest
    | some metadata =>
      let entries := table.filter fun e => e.1.name == name
      have hgroup : Alone k globals _ _ :=
        (alone_members w table name metadata [] entries names groups).trans (ih _ _)
      simp only [step, hm, readGroups, readGroup_of_metadata globals _ hm]
      cases hread : (readMembers metadata globals w entries).1 with
      | error e => simpa [entries, hread, Except.map] using hgroup
      | ok members => simpa [entries, hread, Except.map] using hgroup

/-- An export that nobody disturbs collects the groups of the registry. -/
theorem exists_run_alone (k : RegistryKey) (name? : Option String) (globals : List Tag) (w : World) :
    ∃ n, (start k name? w).run k globals (List.replicate n .own) =
      ⟨(collectGroups k name? globals w).2, ((w.registry k).selected name?).toList, .between [],
        (collectGroups k name? globals w).1⟩ := by
  rw [collectGroups_eq]
  exact alone_groups ..

end Alone

section Rendered

variable {w : World} {k : RegistryKey}

/-- The registration of a counter of what was sent, in a unit. -/
def sentIn (unit : String) : Registry.Registration Store :=
  .instrument .counter (.metadata { Metadata.ofKind "sent" .counter with unit := some unit }) []
    ⟨fun store => store.add 0 16 (.counter 0), fun store => store.kind_add 0 16 (.counter 0)⟩

/-- The world in which five bytes were sent. -/
def fiveBytesSent : World :=
  ((World.start 16).newRegistry.2.operate ⟨0⟩ (.register (sentIn "bytes"))).increment 0 5

/-- A registration leads to its registry. -/
theorem reachable_fiveBytesSent : (fiveBytesSent.registry ⟨0⟩).Reachable :=
  Registry.Reachable.empty.step (.register (sentIn "bytes")) Store.empty

/-- Whatever is registered and removed while an export is under way, each of its groups shows the
instruments that the table had of one name, all of the kind of the metadata that they are shown under.
That is what was stored for the name when it was looked up. It is what was stored when the table was read
unless at some time in between no instrument of the name was left, so that the name was taken up again;
and it is so always if others only remove. -/
theorem rendered_run (hr : (w.registry k).Reachable) (name? : Option String) (globals : List Tag)
    (schedule : List Turn) :
    let p := start k name? w
    ∀ g ∈ (p.run k globals schedule).groups, ∃ name,
      LookedUp k globals p schedule name g.metadata ∧
      List.Forall₂ (Read k globals p schedule g.metadata)
        (((w.registry k).selected name?).toList.filter fun e => e.1.name == name) g.members ∧
      ((∀ t ∈ schedule, t.Withdraws) → (w.registry k).metadataFor? name = some g.metadata) := by
  intro p g hg
  have hc : (p.world.registry k).Coherent := hr.coherent
  have hstart : Sound k globals p [] p := ⟨rfl, trivial, nofun⟩
  obtain ⟨name, hm, hmembers⟩ := (hstart.run hc schedule).groups g hg
  refine ⟨name, hm, hmembers, fun hw => ?_⟩
  obtain ⟨earlier, later, rfl, hnow, -⟩ := hm
  exact metadata_of_withdrawals (fun t ht => hw t (List.mem_append_left _ ht)) hnow

/-- A counter is removed after the metadata of its name was looked up: it is shown in bytes all the
same. -/
theorem rendered_run_sent :
    let w := fiveBytesSent
    let schedule : List Turn := [.own, .other ⟨0⟩ (.withdraw (.named "sent")), .own, .own]
    let q := (start ⟨0⟩ none w).run ⟨0⟩ [] schedule
    (w.registry ⟨0⟩).Reachable ∧ (∀ t ∈ schedule, t.Withdraws) ∧
      ∃ g, q.groups = [g] ∧ ∃ name, (w.registry ⟨0⟩).metadataFor? name = some g.metadata := by
  intro w schedule q
  have hw : ∀ t ∈ schedule, t.Withdraws := by simp [schedule, Turn.Withdraws, Operation.isWithdrawal]
  obtain ⟨g, hg⟩ : ∃ g, q.groups = [g] := ⟨_, rfl⟩
  obtain ⟨name, -, -, hm⟩ := rendered_run reachable_fiveBytesSent none [] schedule g
    (hg ▸ List.mem_singleton_self g)
  exact ⟨reachable_fiveBytesSent, hw, g, hg, name, hm hw⟩

/-- A counter is removed before the metadata of its name is looked up, and one in another unit is
registered in its place: the counter of the table is shown under metadata that no name had when the table
was read, and what it counted in bytes is shown as kilobytes. -/
theorem rendered_under_later_metadata :
    let w := fiveBytesSent
    let schedule : List Turn := [.other ⟨0⟩ (.withdraw (.named "sent")),
      .other ⟨0⟩ (.register (sentIn "kilobytes")), .own, .own, .own]
    let p := start ⟨0⟩ none w
    (w.registry ⟨0⟩).Reachable ∧ p.table = [(.of "sent" [], .counter 0)] ∧
      (∀ name m, (w.registry ⟨0⟩).metadataFor? name = some m → m.unit = some "bytes") ∧
      ∃ g x, (p.run ⟨0⟩ [] schedule).groups = [g] ∧ g.members = [x] ∧
        (∀ name, (w.registry ⟨0⟩).metadataFor? name ≠ some g.metadata) ∧
        g.metadata.unit = some "kilobytes" ∧
        x.reading = (readInstrument w (some "kilobytes") (.counter 0)).1 := by
  intro w schedule p
  have htable : (w.registry ⟨0⟩).metadata.toList =
      [("sent", { Metadata.ofKind "sent" .counter with unit := some "bytes" })] := rfl
  have hbytes (name : String) (m : Metadata) (hm : (w.registry ⟨0⟩).metadataFor? name = some m) :
      m.unit = some "bytes" := by
    have hmem := Table.get?_eq_some_iff.mp hm
    rw [htable] at hmem
    obtain ⟨-, rfl⟩ := Prod.mk.inj (List.mem_singleton.mp hmem)
    rfl
  obtain ⟨g, x, hg, hx, hunit, hreading⟩ : ∃ g x, (p.run ⟨0⟩ [] schedule).groups = [g] ∧
      g.members = [x] ∧ g.metadata.unit = some "kilobytes" ∧
      x.reading = (readInstrument w (some "kilobytes") (.counter 0)).1 := ⟨_, _, rfl, rfl, rfl, rfl⟩
  refine ⟨reachable_fiveBytesSent, rfl, hbytes, g, x, hg, hx, fun name hname => ?_, hunit, hreading⟩
  have hboth := hbytes name g.metadata hname
  rw [hunit] at hboth
  exact absurd hboth (by decide)

end Rendered

end Passage

end Export

end Telemetry
