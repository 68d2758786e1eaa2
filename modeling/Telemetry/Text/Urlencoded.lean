import Telemetry.Text.Utf8

/-!
# Form-encoded pairs

Reading `application/x-www-form-urlencoded` text, the form of a query string: pieces between
ampersands, each cut at its first equals sign, a plus sign for a space, percent escapes of two
hexadecimal digits. An escape that is not one stays as it is, empty pieces are skipped, and a piece
without an equals sign has an empty value.
-/

namespace Telemetry.Text.Urlencoded

/-- The value of a hexadecimal digit, in either case. -/
def hexDigit? (b : UInt8) : Option UInt8 :=
  if 0x30 ≤ b ∧ b ≤ 0x39 then some (b - 0x30)
  else if 0x41 ≤ b ∧ b ≤ 0x46 then some (b - 0x37)
  else if 0x61 ≤ b ∧ b ≤ 0x66 then some (b - 0x57)
  else none

/-- The octet that two hexadecimal digits spell. -/
def hexPair? (high low : UInt8) : Option UInt8 :=
  match hexDigit? high, hexDigit? low with
  | some h, some l => some (h * 16 + l)
  | _, _ => none

/-- Undo percent escapes; a percent sign without two digits stays. -/
def percentDecode : List UInt8 → List UInt8
  | [] => []
  | [b] => [b]
  | [b, c] => [b, c]
  | b :: high :: low :: rest =>
    match if b = 0x25 then hexPair? high low else none with
    | some octet => octet :: percentDecode rest
    | none => b :: percentDecode (high :: low :: rest)

/-- One component: plus signs are spaces, then the escapes are undone. -/
def decodeComponent (bs : List UInt8) : String :=
  String.ofList (Utf8.decode (percentDecode (bs.map fun b => if b = 0x2b then 0x20 else b)))

/-- The octets up to the first `sep`, and those after it. -/
def spanAt (sep : UInt8) (bs : List UInt8) : List UInt8 × List UInt8 :=
  (bs.takeWhile (· != sep), (bs.dropWhile (· != sep)).drop 1)

/-- The octets between separators. -/
def pieces (sep : UInt8) : List UInt8 → List (List UInt8)
  | [] => [[]]
  | b :: rest =>
    if b = sep then [] :: pieces sep rest
    else
      match pieces sep rest with
      | [] => [[b]]
      | piece :: more => (b :: piece) :: more

/-- The pairs of a form-encoded text, in order. -/
def decode (bs : List UInt8) : List (String × String) :=
  ((pieces 0x26 bs).filter fun piece => !piece.isEmpty).map fun piece =>
    let (key, value) := spanAt 0x3d piece
    (decodeComponent key, decodeComponent value)

/-- Octets without a percent sign are left alone. -/
theorem percentDecode_eq_self {bs : List UInt8} (h : ∀ b ∈ bs, b ≠ 0x25) :
    percentDecode bs = bs := by
  fun_induction percentDecode bs with
  | case1 => rfl
  | case2 => rfl
  | case3 => rfl
  | case4 b high low rest octet hm => simp [h b List.mem_cons_self] at hm
  | case5 b high low rest hm ih => rw [ih fun x hx => h x (List.mem_cons_of_mem _ hx)]

end Telemetry.Text.Urlencoded
