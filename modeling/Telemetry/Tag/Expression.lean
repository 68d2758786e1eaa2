import Telemetry.Label
import Telemetry.Tag
import Telemetry.Text.Blank
import Telemetry.Text.Pieces

/-!
# Tag expressions

Tags written on one line: `key=value` segments between commas. A comma inside a segment is led by a
backslash; no other backslash means anything. Blank characters around a key do not count, those of
a value do, and an expression of blank characters alone has no tags.
-/

namespace Telemetry.Tag

/-- Why a segment of an expression is no tag. -/
inductive SegmentFault where
  /-- There is no equals sign. -/
  | notAPair (segment : String)
  /-- Nothing but blank characters stands before the equals sign. -/
  | emptyKey (segment : String)
  /-- What stands before the equals sign is no label key. -/
  | invalidKey (key : String)
  deriving DecidableEq, Repr

/-- The wording of a fault. -/
def SegmentFault.reason : SegmentFault → String
  | .notAPair segment => "`" ++ segment ++ "` is not a key=value pair"
  | .emptyKey segment => "`" ++ segment ++ "` has an empty key"
  | .invalidKey key => "`" ++ key ++ "` is not a valid tag name"

/-- A refused expression with the fault of its first bad segment. -/
structure MalformedExpression where
  /-- The expression as it was given. -/
  input : String
  /-- What is wrong with it. -/
  fault : SegmentFault
  deriving DecidableEq, Repr

/-- The wording of a refusal. -/
def MalformedExpression.message (e : MalformedExpression) : String :=
  "malformed tag expression `" ++ e.input ++ "`: " ++ e.fault.reason

/-- Put a character in front of the first segment. -/
def intoFirst (c : Char) : List (List Char) → List (List Char)
  | [] => [[c]]
  | segment :: more => (c :: segment) :: more

/-- The segments of an expression: it is cut at commas, and a backslash before a comma keeps the
comma in the segment. -/
def segments : List Char → List (List Char)
  | [] => [[]]
  | '\\' :: ',' :: rest => intoFirst ',' (segments rest)
  | ',' :: rest => [] :: segments rest
  | c :: rest => intoFirst c (segments rest)

/-- The tag that a segment writes. -/
def ofSegment (segment : List Char) : Except SegmentFault Tag :=
  match Text.cut? '=' segment with
  | none => .error (.notAPair (String.ofList segment))
  | some (before, value) =>
    let key := String.ofList (Text.trim before)
    if key.isEmpty then .error (.emptyKey (String.ofList segment))
    else if Label.isKey key then .ok ⟨key, String.ofList value⟩
    else .error (.invalidKey key)

/-- The tags of an expression, in order, or the first fault. -/
def parseExpression (s : String) : Except MalformedExpression (List Tag) :=
  if s.toList.all Text.isBlank then .ok []
  else ((segments s.toList).mapM ofSegment).mapError fun fault => ⟨s, fault⟩

/-- A text with a backslash before each comma. -/
def escapeCommas (cs : List Char) : List Char :=
  cs.flatMap fun c => if c = ',' then ['\\', ','] else [c]

/-- The segment that writes a tag; commas of the value are escaped, a valid key has none. -/
def toSegment (t : Tag) : List Char := t.key.toList ++ '=' :: escapeCommas t.value.toList

/-- The expression that writes tags. -/
def expression (ts : List Tag) : String :=
  Text.join "," (ts.map fun t => String.ofList t.toSegment)

/-- There is always a segment. -/
theorem segments_ne_nil (cs : List Char) : segments cs ≠ [] := by
  have h : ∀ c l, intoFirst c l ≠ [] := by
    intro c l
    cases l <;> simp [intoFirst]
  unfold segments
  split <;> first | exact h _ _ | simp

end Telemetry.Tag
