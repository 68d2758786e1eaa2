/-!
# Letters and digits

The upper-case letters, the lower-case letters and the digits are ranges of characters that do not meet.
Only an upper-case letter is another character in lower case.
-/

namespace Telemetry.Text

variable {c : Char}

/-- The upper-case letters are a range of characters. -/
theorem isUpper_iff : c.isUpper = true ↔ 65 ≤ c.toNat ∧ c.toNat ≤ 90 := decide_eq_true_iff

/-- The lower-case letters are a range of characters. -/
theorem isLower_iff : c.isLower = true ↔ 97 ≤ c.toNat ∧ c.toNat ≤ 122 :=
  Bool.and_eq_true_iff.trans (and_congr decide_eq_true_iff decide_eq_true_iff)

/-- The digits are a range of characters. -/
theorem isDigit_iff : c.isDigit = true ↔ 48 ≤ c.toNat ∧ c.toNat ≤ 57 := Char.isDigit_iff_toNat

/-- The letters are those in upper and in lower case. -/
theorem isAlpha_eq (c : Char) : c.isAlpha = (c.isUpper || c.isLower) := rfl

/-- The letters and digits are in one of three ranges. -/
theorem isAlphanum_eq (c : Char) : c.isAlphanum = (c.isUpper || c.isLower || c.isDigit) := rfl

/-- No upper-case letter is in lower case. -/
theorem isLower_of_isUpper (h : c.isUpper = true) : c.isLower = false := by
  have hupper := isUpper_iff.mp h
  rw [← Bool.not_eq_true, isLower_iff]
  omega

/-- No upper-case letter is a digit. -/
theorem isDigit_of_isUpper (h : c.isUpper = true) : c.isDigit = false := by
  have hupper := isUpper_iff.mp h
  rw [← Bool.not_eq_true, isDigit_iff]
  omega

/-- No lower-case letter is a digit. -/
theorem isDigit_of_isLower (h : c.isLower = true) : c.isDigit = false := by
  have hlower := isLower_iff.mp h
  rw [← Bool.not_eq_true, isDigit_iff]
  omega

/-- No digit is a letter. -/
theorem isAlpha_of_isDigit (h : c.isDigit = true) : c.isAlpha = false := by
  have hdigit := isDigit_iff.mp h
  rw [← Bool.not_eq_true, isAlpha_eq, Bool.or_eq_true, isUpper_iff, isLower_iff]
  omega

/-- What is no upper-case letter stays as it is in lower case. -/
theorem toLower_of_not_isUpper (h : c.isUpper = false) : c.toLower = c := by
  apply dif_neg
  intro hrange
  have hupper : c.isUpper = true := decide_eq_true hrange
  rw [h] at hupper
  contradiction

end Telemetry.Text
