import Mathlib.Data.List.Forall2

/-!
# Related lists and options

Two lists are related one by one, and two options when there is something in both or in neither. Both
relations come from one between what is in them.
-/

namespace Telemetry.Related

variable {α β : Type}

section Lists

/-- What is in the second of two related lists is related to something in the first. -/
theorem exists_of_mem_right {R : α → β → Prop} {l : List α} {m : List β} (h : List.Forall₂ R l m)
    {b : β} (hb : b ∈ m) : ∃ a ∈ l, R a b := by
  induction h with
  | nil => contradiction
  | @cons x y _ _ hxy _ ih =>
    rcases List.mem_cons.mp hb with rfl | hb
    · exact ⟨x, List.mem_cons_self, hxy⟩
    · obtain ⟨a, ha, hab⟩ := ih hb
      exact ⟨a, List.mem_cons_of_mem _ ha, hab⟩

/-- What is made of a list is related to the pairs of what else is made of it. -/
theorem forall₂_zip_map {γ δ : Type} {R : β → γ × δ → Prop} (l : List α) {f : α → β} {g : α → γ}
    {h : α → δ} (hr : ∀ x ∈ l, R (f x) (g x, h x)) :
    List.Forall₂ R (l.map f) ((l.map g).zip (l.map h)) := by
  rw [List.zip_map', List.forall₂_map_left_iff, List.forall₂_map_right_iff, List.forall₂_same]
  exact hr

/-- What is found for every element of a list is related to it one by one. -/
theorem forall₂_filterMap {f : α → Option β} {R : α → β → Prop} {l : List α}
    (h : ∀ x ∈ l, ∃ y, f x = some y ∧ R x y) : List.Forall₂ R l (l.filterMap f) := by
  have hfound : ∀ ⦃x y⦄, x = y ∧ x ∈ l → Option.Rel R (some x) (f y) := by
    rintro x _ ⟨rfl, hx⟩
    obtain ⟨y, hy, hxy⟩ := h x hx
    exact hy ▸ .some hxy
  have hself : List.Forall₂ (fun x y => x = y ∧ x ∈ l) l l :=
    List.forall₂_same.mpr fun _ hx => ⟨rfl, hx⟩
  have hrel := List.rel_filterMap hfound hself
  rwa [List.filterMap_some] at hrel

end Lists

section Options

variable {A : α → β → Prop} {x : Option α} {y : Option β}

/-- What is related is there on both sides or on neither. -/
theorem cases_of_rel (h : Option.Rel A x y) :
    (x = none ∧ y = none) ∨ ∃ a b, x = some a ∧ y = some b ∧ A a b := by
  cases h with
  | none => exact .inl ⟨rfl, rfl⟩
  | some hab => exact .inr ⟨_, _, rfl, rfl, hab⟩

/-- What is there on both sides or on neither is related if it is related where it is there. -/
theorem rel_of_exists_iff (h : (∃ a, x = some a) ↔ ∃ b, y = some b)
    (hA : ∀ a b, x = some a → y = some b → A a b) : Option.Rel A x y := by
  cases hx : x with
  | some a =>
    obtain ⟨b, hy⟩ := h.mp ⟨a, hx⟩
    exact hy ▸ .some (hA a b hx hy)
  | none =>
    cases hy : y with
    | none => exact .none
    | some b =>
      obtain ⟨a, ha⟩ := h.mpr ⟨b, hy⟩
      rw [hx] at ha
      contradiction

/-- A reflexive relation relates an option to itself. -/
theorem rel_refl {E : α → α → Prop} (hE : ∀ a, E a a) (x : Option α) : Option.Rel E x x := by
  cases x with
  | none => exact .none
  | some a => exact .some (hE a)

/-- Options are related by equality when they are equal. -/
theorem rel_eq_iff {x y : Option α} : Option.Rel (· = ·) x y ↔ x = y := by
  constructor
  · rintro (⟨rfl⟩ | -) <;> rfl
  · rintro rfl
    exact rel_refl (fun _ => rfl) x

end Options

end Telemetry.Related
