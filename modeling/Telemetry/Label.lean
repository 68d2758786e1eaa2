import Telemetry.Tag

/-!
# Labels

What a tag becomes in a text document. The key of a label, and of a tag in a tag expression, is a
word: an ASCII letter or underscore, then letters, digits and underscores. Other characters of a tag
key become underscores one by one; the value is kept.
-/

namespace Telemetry

/-- A key with a value in a text document. -/
structure Label where
  key : String
  /-- The value, before it is escaped. -/
  value : String
  deriving DecidableEq, Repr

namespace Label

/-- Whether a key may begin with the character. -/
def isStart (c : Char) : Bool := c.isAlpha || c == '_'

/-- Whether a key may go on with the character. -/
def isPart (c : Char) : Bool := c.isAlphanum || c == '_'

/-- Whether a text is a key as it is. -/
def isKey (s : String) : Bool :=
  match s.toList with
  | [] => false
  | c :: rest => isStart c && rest.all isPart

/-- A character, or an underscore when it does not fit. -/
def keepIf (fits : Char → Bool) (c : Char) : Char := if fits c then c else '_'

/-- The key under which a tag key is written. -/
def sanitizeKey (s : String) : String :=
  match s.toList with
  | [] => ""
  | c :: rest => String.ofList (keepIf isStart c :: rest.map (keepIf isPart))

/-- The label of a tag. -/
def ofTag (t : Tag) : Label := ⟨sanitizeKey t.key, t.value⟩

/-- A valid key is written as it is. -/
theorem sanitizeKey_eq_self {s : String} (h : isKey s = true) : sanitizeKey s = s := by
  unfold isKey at h
  unfold sanitizeKey
  split at h
  · simp at h
  · rename_i c rest hs
    simp only [Bool.and_eq_true, List.all_eq_true] at h
    have hmap : rest.map (keepIf isPart) = rest := by
      conv => rhs; rw [← List.map_id rest]
      exact List.map_congr_left fun x hx => by simp [keepIf, h.2 x hx]
    simp only [keepIf, h.1, if_true, hmap]
    exact hs ▸ String.ofList_toList

end Label

end Telemetry
