/-!
# Metric names

The form in which names enter a document: lower-case letters, digits, underscores and colons. A
word boundary inside a name (a lower-case letter before an upper-case one) and every run of other
characters become one underscore, except that none follows a colon.
-/

namespace Telemetry.Name

/-- The underscore that a word boundary asks for; none right after an underscore of this kind or
after a colon. -/
def separator (closed : Bool) : List Char := if closed then [] else ['_']

/-- Sanitize the rest of a name. `afterLower` says that a lower-case letter was read last, and
`closed` that an underscore may not be written next. -/
def sanitizeFrom (afterLower closed : Bool) : List Char → List Char
  | [] => []
  | c :: rest =>
    if c.isUpper then
      (if afterLower then separator closed else []) ++ c.toLower :: sanitizeFrom false false rest
    else if c.isLower then c :: sanitizeFrom true false rest
    else if c.isDigit then c :: sanitizeFrom false false rest
    else if c = ':' then ':' :: sanitizeFrom false true rest
    else separator closed ++ sanitizeFrom false true rest

/-- The form of a name in documents. -/
def sanitize (s : String) : String := String.ofList (sanitizeFrom false false s.toList)

/-- Whether a character may stand in a sanitized name. -/
def isSafe (c : Char) : Bool := c.isLower || c.isDigit || c == '_' || c == ':'

/-- The empty name stays empty. -/
@[simp] theorem sanitize_empty : sanitize "" = "" := rfl

/-- The lower-case form of an upper-case letter is a lower-case letter. -/
theorem isLower_toLower {c : Char} (h : c.isUpper = true) : c.toLower.isLower = true := by
  delta Char.isUpper at h
  simp only [ge_iff_le, decide_eq_true_eq] at h
  have h1 : 65 ≤ c.toNat := h.1
  have h2 : c.toNat ≤ 90 := h.2
  delta Char.toLower Char.isLower
  simp only [ge_iff_le, h.1, h.2, and_self, ↓reduceDIte, Bool.and_eq_true, decide_eq_true_eq,
    UInt32.le_iff_toNat_le, UInt32.toNat_add]
  constructor <;> simp <;> omega

/-- Only safe characters are written. -/
theorem isSafe_of_mem_sanitizeFrom {afterLower closed : Bool} {cs : List Char} {c : Char}
    (h : c ∈ sanitizeFrom afterLower closed cs) : isSafe c = true := by
  have hsep : ∀ b : Bool, c ∈ separator b → isSafe c = true := by
    intro b hb
    cases b with
    | false => simp [separator] at hb; subst hb; decide
    | true => simp [separator] at hb
  induction cs generalizing afterLower closed with
  | nil => simp [sanitizeFrom] at h
  | cons d rest ih =>
    simp only [sanitizeFrom] at h
    split at h
    · rename_i hd
      rcases List.mem_append.mp h with h | h
      · cases afterLower with
        | false => simp at h
        | true => exact hsep closed (by simpa using h)
      · rcases List.mem_cons.mp h with rfl | h
        · simp [isSafe, isLower_toLower hd]
        · exact ih h
    · split at h
      · rename_i hd
        rcases List.mem_cons.mp h with rfl | h
        · simp [isSafe, hd]
        · exact ih h
      · split at h
        · rename_i hd
          rcases List.mem_cons.mp h with rfl | h
          · simp [isSafe, hd]
          · exact ih h
        · split at h
          · rcases List.mem_cons.mp h with rfl | h
            · decide
            · exact ih h
          · rcases List.mem_append.mp h with h | h
            · exact hsep closed h
            · exact ih h

end Telemetry.Name
