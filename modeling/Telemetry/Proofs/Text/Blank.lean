import Mathlib.Data.List.DropRight
import Telemetry.Text.Blank

/-!
# Trimmed texts

Trimming takes all blank characters off both ends of a text and leaves what stands between them, blank
characters inside it included. What is left is determined by this.
-/

namespace Telemetry.Text

/-- A text with what is left of it without the blank characters at its ends. -/
structure Trimmed (cs core : List Char) : Prop where
  between : ∃ left right, cs = left ++ core ++ right ∧
    (∀ c ∈ left, isBlank c = true) ∧ ∀ c ∈ right, isBlank c = true
  first : ∀ c ∈ core.head?, isBlank c = false
  last : ∀ c ∈ core.getLast?, isBlank c = false

variable {cs core blanks : List Char}

/-- Blank characters are none of the others. -/
theorem not_mem_of_blank {c : Char} (hc : isBlank c = false)
    (hblanks : ∀ c ∈ blanks, isBlank c = true) : c ∉ blanks := by
  intro h
  rw [hblanks c h] at hc
  contradiction

/-- Blank characters are dropped up to the first other one. -/
theorem dropWhile_blanks (hblanks : ∀ c ∈ blanks, isBlank c = true)
    (hfirst : ∀ c ∈ core.head?, isBlank c = false) : (blanks ++ core).dropWhile isBlank = core := by
  rw [List.dropWhile_append_of_pos hblanks]
  cases core with
  | nil => rfl
  | cons c rest => rw [List.dropWhile_cons_of_neg (by simpa using hfirst c rfl)]

/-- What is left begins with a character that is not blank. -/
theorem head?_dropWhile_blank (cs : List Char) :
    ∀ c ∈ (cs.dropWhile isBlank).head?, isBlank c = false := by
  intro c hc
  have hhead := List.head?_dropWhile_not isBlank cs
  rwa [Option.mem_def.mp hc] at hhead

/-- Trimming takes the blank characters off both ends. -/
theorem trimmed_trim (cs : List Char) : Trimmed cs (trim cs) := by
  have hright : trim cs ++ (cs.dropWhile isBlank).rtakeWhile isBlank = cs.dropWhile isBlank :=
    List.rdropWhile_append_rtakeWhile
  constructor
  case between =>
    refine ⟨cs.takeWhile isBlank, (cs.dropWhile isBlank).rtakeWhile isBlank, ?_,
      fun c hc => List.mem_takeWhile_imp hc, fun c hc => List.mem_rtakeWhile_imp hc⟩
    rw [List.append_assoc, hright, List.takeWhile_append_dropWhile]
  case first =>
    intro c hc
    apply head?_dropWhile_blank cs
    rw [← hright, List.head?_append, Option.mem_def.mp hc]
    rfl
  case last =>
    intro c hc
    rw [trim, List.getLast?_reverse] at hc
    exact head?_dropWhile_blank _ c hc

/-- Nothing is left of a text exactly when its characters are all blank. -/
theorem trimmed_nil_iff : Trimmed cs [] ↔ ∀ c ∈ cs, isBlank c = true := by
  constructor
  · intro h c hc
    obtain ⟨left, right, rfl, hleft, hright⟩ := h.between
    rw [List.append_nil, List.mem_append] at hc
    exact hc.elim (hleft c) (hright c)
  · intro h
    exact ⟨⟨cs, [], by simp, h, nofun⟩, nofun, nofun⟩

/-- What is left is determined by the text. -/
theorem Trimmed.trim_eq (h : Trimmed cs core) : trim cs = core := by
  cases core with
  | nil =>
    rw [trim, List.dropWhile_eq_nil_iff.mpr (trimmed_nil_iff.mp h)]
    rfl
  | cons d rest =>
    obtain ⟨left, right, rfl, hleft, hright⟩ := h.between
    have hfirst : ∀ c ∈ (d :: rest ++ right).head?, isBlank c = false := h.first
    have hlast : ∀ c ∈ (d :: rest).reverse.head?, isBlank c = false := by
      rw [List.head?_reverse]
      exact h.last
    have hright : ∀ c ∈ right.reverse, isBlank c = true :=
      fun c hc => hright c (List.mem_reverse.mp hc)
    rw [trim, List.append_assoc, dropWhile_blanks hleft hfirst, List.reverse_append,
      dropWhile_blanks hright hlast, List.reverse_reverse]

/-- Trimming leaves a text exactly when the text is what is left. -/
theorem trim_eq_iff : trim cs = core ↔ Trimmed cs core := by
  constructor
  · rintro rfl
    exact trimmed_trim cs
  · exact Trimmed.trim_eq

/-- Blank characters around a text make no difference. -/
theorem trim_surround {left right : List Char} (hleft : ∀ c ∈ left, isBlank c = true)
    (hright : ∀ c ∈ right, isBlank c = true) (cs : List Char) :
    trim (left ++ cs ++ right) = trim cs := by
  obtain ⟨⟨l, r, hcs, hl, hr⟩, hfirst, hlast⟩ := trimmed_trim cs
  apply Trimmed.trim_eq
  refine ⟨⟨left ++ l, r ++ right, ?_, ?_, ?_⟩, hfirst, hlast⟩
  · conv_lhs => rw [hcs]
    simp
  · simpa [or_imp, forall_and] using ⟨hleft, hl⟩
  · simpa [or_imp, forall_and] using ⟨hr, hright⟩

end Telemetry.Text
