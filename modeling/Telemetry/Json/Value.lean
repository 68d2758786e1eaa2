import Telemetry.Decimal.Style
import Telemetry.Table

/-!
# JSON documents

Values and their compact text. Objects are lists of entries; those of a document come from tables,
so their keys are sorted and differ. Characters other than quotation mark, backslash and controls
are written as they are.
-/

namespace Telemetry

/-- A JSON value. -/
inductive Json where
  | null
  | boolean (b : Bool)
  /-- A whole number, written with all its digits. -/
  | natural (n : Nat)
  /-- A double, written with the fewest digits. -/
  | decimal (x : Float)
  | text (s : String)
  | list (items : List Json)
  /-- An object with its entries in order. -/
  | object (entries : List (String × Json))

namespace Json

/-- The object of a table. -/
def ofTable (t : Table String Json) : Json := .object t.toList

/-- The value of a double: infinities and NaN have none. -/
def ofFloat (x : Float) : Json := if x.isFinite then .decimal x else .null

/-- The greatest whole number that is written as one: all below it are exact as doubles. -/
def greatestWhole : Float := 9007199254740992

/-- The value of a double that counts: whole numbers up to `greatestWhole` have no point. A double is
whole if nothing is lost when it is made an integer. -/
def ofCount (x : Float) : Json :=
  if x.toUInt64.toFloat == x && 0 ≤ x && x ≤ greatestWhole then .natural x.toUInt64.toNat
  else ofFloat x

/-- A hexadecimal digit in lower case. -/
def hexDigit (n : Nat) : Char := Nat.digitChar (n % 16)

/-- A character inside quotation marks. -/
def writeChar (c : Char) : List Char :=
  if c = '"' then ['\\', '"']
  else if c = '\\' then ['\\', '\\']
  else if c = '\n' then ['\\', 'n']
  else if c = '\r' then ['\\', 'r']
  else if c = '\t' then ['\\', 't']
  else if c = '\x08' then ['\\', 'b']
  else if c = '\x0c' then ['\\', 'f']
  else if c.toNat < 0x20 then
    ['\\', 'u', '0', '0', hexDigit (c.toNat / 16), hexDigit c.toNat]
  else [c]

/-- A text in quotation marks. -/
def writeText (s : String) : List Char := '"' :: (s.toList.flatMap writeChar ++ ['"'])

mutual

/-- The compact text of a value. -/
def chars : Json → List Char
  | .null => "null".toList
  | .boolean b => if b then "true".toList else "false".toList
  | .natural n => Nat.toDigits 10 n
  | .decimal x => (Decimal.Style.json.write x).toList
  | .text s => writeText s
  | .list items => '[' :: (itemChars items ++ [']'])
  | .object entries => '\x7b' :: (entryListChars entries ++ ['\x7d'])

/-- Items with commas between them. -/
def itemChars : List Json → List Char
  | [] => []
  | x :: rest => chars x ++ (match rest with | [] => [] | _ => [',']) ++ itemChars rest

/-- Entries with commas between them. -/
def entryListChars : List (String × Json) → List Char
  | [] => []
  | e :: rest => entryChars e ++ (match rest with | [] => [] | _ => [',']) ++ entryListChars rest

/-- One entry. -/
def entryChars : String × Json → List Char
  | (key, x) => writeText key ++ ':' :: chars x

end

/-- The compact text of a value. -/
def write (x : Json) : String := String.ofList x.chars

/-- A whole number is its digits. -/
theorem write_natural (n : Nat) : (natural n).write = String.ofList (Nat.toDigits 10 n) := by
  simp [write, chars]

end Json

end Telemetry
