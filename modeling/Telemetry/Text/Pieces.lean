/-!
# Cutting text

Text cut at a character: once, at the first occurrence, or everywhere. Also the comparison of
texts up to the case of ASCII letters and the test for an ending, as the rules for names, units
and media types use them.
-/

namespace Telemetry.Text

/-- The text before and after the first `sep`, if there is one. -/
def cut? (sep : Char) : List Char → Option (List Char × List Char)
  | [] => none
  | c :: rest => if c = sep then some ([], rest) else (cut? sep rest).map fun p => (c :: p.1, p.2)

/-- The text before the first `sep`; all of it when there is none. -/
def before (sep : Char) (cs : List Char) : List Char := cs.takeWhile (· != sep)

/-- The pieces between separators: one more than there are separators. -/
def pieces (sep : Char) : List Char → List (List Char)
  | [] => [[]]
  | c :: rest =>
    if c = sep then [] :: pieces sep rest
    else
      match pieces sep rest with
      | [] => [[c]]
      | piece :: more => (c :: piece) :: more

/-- ASCII letters in lower case, all else as it is. -/
def lower (s : String) : String := String.ofList (s.toList.map Char.toLower)

/-- Equality up to the case of ASCII letters. -/
def sameLetters (a b : String) : Bool := lower a == lower b

/-- Whether `s` ends with `tail`. -/
def endsWith (s tail : String) : Bool := tail.toList.isSuffixOf s.toList

/-- `s` without its ending `tail`, or as it is when it does not end so. -/
def dropEnding (s tail : String) : String :=
  if endsWith s tail then String.ofList (s.toList.take (s.length - tail.length)) else s

/-- A text joined from parts with `sep` between them. -/
def join (sep : String) : List String → String
  | [] => ""
  | [s] => s
  | s :: t :: rest => s ++ sep ++ join sep (t :: rest)

/-- Putting the separator back gives the text that was cut. -/
theorem append_of_cut? {sep : Char} {cs l r : List Char} (h : cut? sep cs = some (l, r)) :
    l ++ sep :: r = cs := by
  induction cs generalizing l with
  | nil => simp [cut?] at h
  | cons c rest ih =>
    simp only [cut?] at h
    split at h
    · rename_i hc
      simp only [Option.some.injEq, Prod.mk.injEq] at h
      obtain ⟨rfl, rfl⟩ := h
      simp [hc]
    · obtain ⟨p, hp, hpe⟩ := Option.map_eq_some_iff.mp h
      simp only [Prod.mk.injEq] at hpe
      obtain ⟨rfl, rfl⟩ := hpe
      simp [ih hp]

/-- An ending that was dropped can be put back. -/
theorem dropEnding_append {s tail : String} (h : endsWith s tail = true) :
    dropEnding s tail ++ tail = s := by
  obtain ⟨l, hl⟩ := List.isSuffixOf_iff_suffix.mp h
  have hlength : s.length - tail.length = l.length := by
    rw [← String.length_toList, ← String.length_toList, ← hl, List.length_append]
    omega
  rw [String.ext_iff, dropEnding, if_pos h, hlength, String.toList_append, String.toList_ofList, ← hl,
    List.take_left]

/-- There is always a piece. -/
theorem pieces_ne_nil (sep : Char) (cs : List Char) : pieces sep cs ≠ [] := by
  cases cs with
  | nil => simp [pieces]
  | cons c rest => simp only [pieces]; split <;> (try split) <;> simp

end Telemetry.Text
