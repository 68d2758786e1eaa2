/-!
# Backslash escapes

Label values and descriptions of text documents are written with three escapes: a backslash
becomes two, a line feed a backslash and `n`, and a quotation mark, where it is escaped at all, is
led by a backslash. `decode` undoes all three, so what was written can be read back.
-/

namespace Telemetry.Text.Escape

/-- The written form of one character; quotation marks are escaped when `quotes` holds. -/
def encodeChar (quotes : Bool) (c : Char) : List Char :=
  if c = '\\' then ['\\', '\\']
  else if c = '\n' then ['\\', 'n']
  else if c = '"' ∧ quotes then ['\\', '"']
  else [c]

/-- The written form of a text. -/
def encode (quotes : Bool) (cs : List Char) : List Char := cs.flatMap (encodeChar quotes)

/-- Undo the escapes: a backslash before `n` stands for a line feed, before another character for
that character. -/
def decode : List Char → List Char
  | [] => []
  | '\\' :: c :: rest => (if c = 'n' then '\n' else c) :: decode rest
  | c :: rest => c :: decode rest

/-- The form in which a label value stands between quotation marks. -/
def labelValue (s : String) : String := String.ofList (encode true s.toList)

/-- The form in which a description stands in a header line. -/
def description (quotes : Bool) (s : String) : String := String.ofList (encode quotes s.toList)

/-- One escaped character is read back. -/
theorem decode_encodeChar_append (quotes : Bool) (c : Char) (rest : List Char) :
    decode (encodeChar quotes c ++ rest) = c :: decode rest := by
  unfold encodeChar
  split
  · subst_vars; simp [decode]
  · split
    · subst_vars; simp [decode]
    · split
      · rename_i h; simp [decode, h.1]
      · rename_i h _ _; simp [decode, h]

/-- Reading an escaped text gives the text back. -/
theorem decode_encode (quotes : Bool) (cs : List Char) : decode (encode quotes cs) = cs := by
  induction cs with
  | nil => rfl
  | cons c rest ih =>
    rw [encode, List.flatMap_cons, decode_encodeChar_append]
    exact congrArg (c :: ·) ih

end Telemetry.Text.Escape
