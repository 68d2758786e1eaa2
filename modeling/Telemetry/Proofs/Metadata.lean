import Telemetry.Metadata

/-!
# Where two records of a name differ

The comparison of a registration's metadata with what is stored, stated field by field: what counts
as the same in each field, and which field a conflict names. The comparison in `Telemetry.Metadata`
works on texts; here the fields are compared as they are, with their defaults. It is an equivalence, and
a conflict is the same from either side with the two values exchanged.
-/

namespace Telemetry.Metadata

/-- Two records say the same in a field: a unit or description that is not given counts as the word
`none`, a display name that is not given as the name, and units are compared in lower case. -/
def SameIn (a b : Metadata) : Field → Prop
  | .unit => Text.lower (a.unit.getD noneWord) = Text.lower (b.unit.getD noneWord)
  | .description => a.description.getD noneWord = b.description.getD noneWord
  | .displayName => a.display.getD a.name = b.display.getD b.name
  | .reusable => a.reusable = b.reusable

/-- The fields that are compared before a field. -/
def Field.earlier (f : Field) : List Field := Field.all.takeWhile (· != f)

/-- A field in which two records differ while they say the same in all fields compared before. -/
def FirstDifference (a b : Metadata) (f : Field) : Prop :=
  ¬ a.SameIn b f ∧ ∀ g ∈ f.earlier, a.SameIn b g

/-- Every field is compared. -/
theorem Field.mem_all (f : Field) : f ∈ Field.all := by cases f <;> decide

/-- What holds of every field holds of the four. -/
theorem Field.forall_iff {p : Field → Prop} :
    (∀ f, p f) ↔ p .unit ∧ p .description ∧ p .displayName ∧ p .reusable := by
  constructor
  · exact fun h => ⟨h _, h _, h _, h _⟩
  · rintro ⟨hu, hd, hn, hr⟩ (_ | _ | _ | _) <;> assumption

/-- The texts of a field agree exactly when the records say the same in it. -/
theorem agree_value_iff {a b : Metadata} {f : Field} :
    f.agree (a.value f) (b.value f) = true ↔ a.SameIn b f := by
  cases f with
  | unit => simp [Field.agree, value, SameIn, Text.sameLetters]
  | description => simp [Field.agree, value, SameIn]
  | displayName => simp [Field.agree, value, SameIn, displayName]
  | reusable =>
    cases ha : a.reusable <;> cases hb : b.reusable <;> simp [Field.agree, value, SameIn, ha, hb]

/-- A search through the fields stops at the first that fits. -/
theorem Field.find?_all_eq_some_iff {p : Field → Bool} {f : Field} :
    Field.all.find? p = some f ↔ p f = true ∧ ∀ g ∈ f.earlier, p g = false := by
  cases f <;> cases hu : p .unit <;> cases hd : p .description <;> cases hn : p .displayName <;>
    cases hr : p .reusable <;> simp [Field.all, Field.earlier, hu, hd, hn, hr]

/-- There is no conflict exactly when the records say the same in every field. -/
theorem conflict?_eq_none_iff {a b : Metadata} : a.conflict? b = none ↔ ∀ f, a.SameIn b f := by
  rw [conflict?, Option.map_eq_none_iff, List.find?_eq_none]
  constructor
  · intro h f
    exact agree_value_iff.mp (by simpa using h f f.mem_all)
  · intro h f _
    simpa using agree_value_iff.mpr (h f)

/-- A conflict names the first field that differs, with the texts of both records. -/
theorem conflict?_eq_some_iff {a b : Metadata} {c : Conflict} :
    a.conflict? b = some c ↔ ∃ f, a.FirstDifference b f ∧ ⟨f, a.value f, b.value f⟩ = c := by
  have hfirst (f : Field) :
      Field.all.find? (fun f => !f.agree (a.value f) (b.value f)) = some f ↔
        a.FirstDifference b f := by
    rw [Field.find?_all_eq_some_iff, FirstDifference, ← agree_value_iff, Bool.not_eq_true,
      Bool.not_eq_true']
    simp only [Bool.not_eq_false', agree_value_iff]
  simp only [conflict?, Option.map_eq_some_iff, hfirst]

variable {a b c : Metadata} {f : Field}

/-- Records agree when they have the same name and kind and say the same in every field. -/
theorem agrees_iff :
    a.agrees b = true ↔ a.name = b.name ∧ a.kind = b.kind ∧ ∀ f, a.SameIn b f := by
  simp only [agrees, Bool.and_eq_true, beq_iff_eq, Option.isNone_iff_eq_none,
    conflict?_eq_none_iff, and_assoc]

/-- A record says the same as itself. -/
theorem SameIn.refl (a : Metadata) (f : Field) : a.SameIn a f := by
  cases f <;> exact rfl

/-- It does not matter which of two records is the first. -/
theorem SameIn.symm (h : a.SameIn b f) : b.SameIn a f := by
  cases f <;> exact Eq.symm h

/-- Records that say the same as a third one say the same. -/
theorem SameIn.trans (h : a.SameIn b f) (h' : b.SameIn c f) : a.SameIn c f := by
  cases f <;> exact Eq.trans h h'

/-- Nor does it matter for the first field in which they differ. -/
theorem FirstDifference.symm (h : a.FirstDifference b f) : b.FirstDifference a f :=
  ⟨mt SameIn.symm h.1, fun g hg => (h.2 g hg).symm⟩

/-- Agreement of records is an equivalence relation. -/
theorem equivalence_agrees : Equivalence fun a b : Metadata => a.agrees b = true where
  refl a := agrees_iff.mpr ⟨rfl, rfl, SameIn.refl a⟩
  symm h := by
    obtain ⟨hname, hkind, hsame⟩ := agrees_iff.mp h
    exact agrees_iff.mpr ⟨hname.symm, hkind.symm, fun f => (hsame f).symm⟩
  trans h h' := by
    obtain ⟨hname, hkind, hsame⟩ := agrees_iff.mp h
    obtain ⟨hname', hkind', hsame'⟩ := agrees_iff.mp h'
    exact agrees_iff.mpr
      ⟨hname.trans hname', hkind.trans hkind', fun f => (hsame f).trans (hsame' f)⟩

/-- A conflict has the texts of both records in the first field in which they differ. -/
theorem conflict?_eq_some_mk_iff {x y : String} :
    a.conflict? b = some ⟨f, x, y⟩ ↔ a.FirstDifference b f ∧ x = a.value f ∧ y = b.value f := by
  rw [conflict?_eq_some_iff]
  constructor
  · rintro ⟨g, hg, he⟩
    obtain ⟨rfl, rfl, rfl⟩ := Conflict.mk.inj he
    exact ⟨hg, rfl, rfl⟩
  · rintro ⟨hf, rfl, rfl⟩
    exact ⟨f, hf, rfl⟩

/-- Comparison of records is lawful. Agreement is an equivalence; in it a unit that is not given is like the
word for none in any letter case, a description that is not given like that word as it is, and a display
name that is not given like the name. There is no conflict exactly where unit, description, display name
and reuse all say the same; otherwise the conflict is in the first field that does not, and it is the same
from the other side with the two values exchanged. -/
theorem comparison_lawful :
    Equivalence (fun a b : Metadata => a.agrees b = true) ∧
    (∀ (m : Metadata) (word : String),
      ({ m with unit := none }.agrees { m with unit := some word } = true ↔
        Text.lower word = "none") ∧
      ({ m with description := none }.agrees { m with description := some word } = true ↔
        word = "none") ∧
      ({ m with display := none }.agrees { m with display := some word } = true ↔ word = m.name)) ∧
    ∀ a b : Metadata,
      (a.conflict? b = none ↔ ∀ f, a.SameIn b f) ∧
      ∀ f x y,
        (a.conflict? b = some ⟨f, x, y⟩ ↔
          a.FirstDifference b f ∧ x = a.value f ∧ y = b.value f) ∧
        (a.conflict? b = some ⟨f, x, y⟩ ↔ b.conflict? a = some ⟨f, y, x⟩) := by
  refine ⟨equivalence_agrees, fun m word => ⟨?_, ?_, ?_⟩, fun a b => ⟨conflict?_eq_none_iff,
    fun f x y => ⟨conflict?_eq_some_mk_iff, ?_⟩⟩⟩
  · have hnone : Text.lower noneWord = "none" := by decide
    simp [agrees_iff, Field.forall_iff, SameIn, hnone, eq_comm (b := "none")]
  · simp [agrees_iff, Field.forall_iff, SameIn, noneWord, eq_comm (b := "none")]
  · simp [agrees_iff, Field.forall_iff, SameIn, eq_comm (a := m.name)]
  · rw [conflict?_eq_some_mk_iff, conflict?_eq_some_mk_iff]
    exact ⟨fun ⟨h, hx, hy⟩ => ⟨h.symm, hy, hx⟩, fun ⟨h, hy, hx⟩ => ⟨h.symm, hx, hy⟩⟩

end Telemetry.Metadata
