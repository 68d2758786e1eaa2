import Telemetry.Proofs.Decimal.Style
import Telemetry.Proofs.Decimal.Whole
import Telemetry.Proofs.Json.Completeness

/-!
# Counts in JSON documents

A count is made a double before it is written. Up to `2 ^ 53` nothing is lost and the literal is the
count. The count after that is rounded down and still passes for one that is exact, so the literal is
less than the count; every greater one is written with a point or an exponent.
-/

namespace Telemetry.Json

open Export (Settings Showable readInstrument worldOfCounters)

section Value

variable {n : UInt64}

/-- A count of at most `2 ^ 53` is written as it is. -/
theorem ofCount_toFloat_of_le (hn : n.toNat ≤ 2 ^ 53) : ofCount n.toFloat = .natural n.toNat := by
  obtain hlt | heq := Nat.lt_or_eq_of_le hn
  · have hguard : (n.toFloat.toUInt64.toFloat == n.toFloat && 0 ≤ n.toFloat &&
        n.toFloat ≤ greatestWhole) = true := by
      rw [Decimal.toUInt64_toFloat_of_lt hlt,
        Decimal.beq_self_of_isFinite (Decimal.isFinite_toFloat n),
        decide_eq_true (Decimal.zero_le_toFloat n), greatestWhole,
        decide_eq_true (Decimal.toFloat_le_limit hlt)]
      rfl
    rw [ofCount, if_pos hguard, Decimal.toUInt64_toFloat_of_lt hlt]
  · obtain rfl : n = 9007199254740992 := UInt64.toNat_inj.mp heq
    rfl

/-- The next count is written as `2 ^ 53`. -/
theorem ofCount_toFloat_of_eq (hn : n.toNat = 2 ^ 53 + 1) : ofCount n.toFloat = .natural (2 ^ 53) := by
  obtain rfl : n = 9007199254740993 := UInt64.toNat_inj.mp hn
  rfl

/-- A greater count is written as a double. -/
theorem ofCount_toFloat_of_lt (hn : 2 ^ 53 + 1 < n.toNat) : ofCount n.toFloat = .decimal n.toFloat := by
  have hlimit : ¬ n.toFloat ≤ greatestWhole := Decimal.limit_lt_toFloat hn
  rw [ofCount, decide_eq_false hlimit, Bool.and_false, ofFloat, Decimal.isFinite_toFloat n]
  rfl

/-- What a double is written as is no literal of a whole number. -/
theorem exists_mem_write_decimal {x : Float} (hx : x.isFinite = true) :
    ∃ c ∈ (decimal x).write.toList, c = '.' ∨ c = 'e' := by
  have hwrite : (decimal x).write = Decimal.Style.json.write x := by
    rw [write, chars, String.ofList_toList]
  rw [hwrite]
  exact Decimal.exists_mem_write rfl (Decimal.isNaN_of_isFinite hx) (Decimal.isInf_of_isFinite hx)

/-- Different whole numbers have different literals. -/
theorem write_natural_inj {a b : Nat} (h : (natural a).write = (natural b).write) : a = b := by
  rw [write_natural, write_natural, String.ofList_inj] at h
  calc a = Nat.ofDigitChars 10 (Nat.toDigits 10 a) 0 :=
        (Nat.ofDigitChars_toDigits (by decide) (by decide)).symm
    _ = Nat.ofDigitChars 10 (Nat.toDigits 10 b) 0 := by rw [h]
    _ = b := Nat.ofDigitChars_toDigits (by decide) (by decide)

/-- No double is written as a whole number. -/
theorem write_decimal_ne_natural {x : Float} (hx : x.isFinite = true) (a : Nat) :
    (decimal x).write ≠ (natural a).write := by
  intro h
  obtain ⟨c, hc, hchar⟩ := exists_mem_write_decimal hx
  rw [h, write_natural, String.toList_ofList] at hc
  have hdigit : c.isDigit = true := Nat.isDigit_of_mem_toDigits (by decide) (by decide) hc
  cases hchar with
  | inl hpoint => rw [hpoint] at hdigit; contradiction
  | inr hexponent => rw [hexponent] at hdigit; contradiction

/-- A count has the literal of its own exactly where it is at most `2 ^ 53`. -/
theorem write_ofCount_toFloat_iff (n : UInt64) :
    (ofCount n.toFloat).write = (natural n.toNat).write ↔ n.toNat ≤ 2 ^ 53 := by
  constructor
  · intro h
    apply Nat.le_of_not_lt
    intro hgreater
    obtain heq | hlt := Nat.eq_or_lt_of_le (Nat.succ_le_of_lt hgreater)
    · rw [ofCount_toFloat_of_eq heq.symm] at h
      have := write_natural_inj h
      omega
    · rw [ofCount_toFloat_of_lt hlt] at h
      exact write_decimal_ne_natural (Decimal.isFinite_toFloat n) _ h
  · intro hn
    rw [ofCount_toFloat_of_le hn]

end Value

variable {w : World} {k : RegistryKey} {id : Identity} {serial : Nat} {m : Metadata}

/-- A counter without a unit has an entry in the object of its scope, and the entry is the literal of
its count exactly where the count is at most `2 ^ 53`. The count after that has the literal of the one
before it, and every greater count is written as a double, with a point or an exponent. -/
theorem counter_literal_iff (hl : (w.registry k).instrument? id = some (.counter serial))
    (hm : (w.registry k).metadataFor? id.name = some m) (hunit : m.unit = none)
    (settings : Settings) :
    let n := w.store.counter serial
    let name := key m.name (id.tags.withDefaults settings.globalTags).list
    ∃ v, EntryOf w (w.registry k) settings.globalTags (id, .counter serial) (name, v) ∧
      (∀ s, w.scope? s = some k → Showable w k none →
        ((valueEntries w (w.registry k) none settings.globalTags).map Prod.fst).Nodup →
        ∃ values, (object? (scopeValues settings) (.scope s) w).1 = some values ∧
          values.get? name = some v) ∧
      (v.write = (natural n.toNat).write ↔ n.toNat ≤ 2 ^ 53) ∧
      (n.toNat = 2 ^ 53 + 1 → v = .natural (2 ^ 53)) ∧
      (2 ^ 53 + 1 < n.toNat → v = .decimal n.toFloat ∧ ∃ c ∈ v.write.toList, c = '.' ∨ c = 'e') := by
  intro n name
  have hreading : ofReading (readInstrument w m.unit (.counter serial)).1 = ofCount n.toFloat := by
    rw [hunit]
    rfl
  refine ⟨ofCount n.toFloat, ⟨m, hm, rfl, hreading.symm⟩, ?_, write_ofCount_toFloat_iff n,
    ofCount_toFloat_of_eq, ?_⟩
  · intro s hs hshow hkeys
    have hmem : (name, ofCount n.toFloat) ∈
        valueEntries w (w.registry k) none settings.globalTags := by
      rw [valueEntries, Export.toList_selected_none, List.mem_filterMap]
      refine ⟨(id, .counter serial), Table.get?_eq_some_iff.mp hl, ?_⟩
      rw [hm, Option.map_some, hreading]
    have hvalues := scopeValues_of_showable hshow settings
    have hobject := (object?_scope (scopeValues settings) hs).trans (congrArg some hvalues)
    have hget := Table.get?_ofList_of_mem hkeys hmem
    exact ⟨_, hobject, hget⟩
  · intro hn
    have hdecimal := ofCount_toFloat_of_lt hn
    refine ⟨hdecimal, ?_⟩
    rw [hdecimal]
    exact exists_mem_write_decimal (Decimal.isFinite_toFloat n)

/-- A world whose only scope has one counter, with the given count. -/
def worldOfCount (n : UInt64) : World := (worldOfCounters ["hits"]).increment 0 n

/-- A count of `2 ^ 53 + 1` is shown as `2 ^ 53`. -/
theorem counter_literal_hits :
    let w := worldOfCount 9007199254740993
    ∃ values, (object? (scopeValues .default) (.scope "s") w).1 = some values ∧
      (values.get? "hits").map write = some "9007199254740992" := by
  intro w
  have hshow : Showable w ⟨0⟩ none :=
    Export.showable_of_honestlyReachable (Export.honestlyReachable_counters ["hits"])
      fun _ _ _ _ _ _ => rfl
  have hl : (w.registry ⟨0⟩).instrument? ⟨"hits", .empty⟩ = some (.counter 0) := by decide +kernel
  have hm : (w.registry ⟨0⟩).metadataFor? "hits" = some (.ofKind "hits" .counter) := by
    decide +kernel
  obtain ⟨v, -, hobject, -, hnext, -⟩ := counter_literal_iff hl hm rfl .default
  obtain ⟨values, hvalues, hv⟩ := hobject "s" (by decide +kernel) hshow (by decide +kernel)
  have hvalue : v = .natural (2 ^ 53) := hnext (by decide +kernel)
  refine ⟨values, hvalues, ?_⟩
  calc (values.get? "hits").map write = (some v).map write := congrArg (Option.map write) hv
    _ = some (natural (2 ^ 53)).write := by rw [hvalue, Option.map_some]
    _ = some "9007199254740992" := by rw [write_natural]; rfl

/-- Two counts of one scope whose documents do not show them: the first is one too small, the second
has a point. -/
theorem counter_literal_fails :
    let shown := fun n => (values? .default (.scope "s") (worldOfCount n)).1
    (worldOfCount 9007199254740993).store.counter 0 = 9007199254740993 ∧
      shown 9007199254740993 = some "\x7b\"hits\":9007199254740992\x7d" ∧
      (worldOfCount 9007199254740994).store.counter 0 = 9007199254740994 ∧
      shown 9007199254740994 = some "\x7b\"hits\":9007199254740994.0\x7d" := by
  decide +kernel

end Telemetry.Json
