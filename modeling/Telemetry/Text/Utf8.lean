/-!
# Reading UTF-8 that may be broken

Octets to characters. The lead octet fixes how many continuation octets are owed and the range of
the first of them. Where a sequence breaks off, the octets that could still have begun a character
are replaced together by one replacement character, and reading goes on at the octet that broke it.
-/

namespace Telemetry.Text.Utf8

/-- The character that stands for octets that are no character: U+FFFD. -/
def replacement : Char := '\uFFFD'

/-- What a lead octet of several octets asks for: how many follow, the range of the first of them
and the bits that the lead contributes. -/
structure Lead where
  /-- Continuation octets owed. -/
  owed : Nat
  /-- Least value of the first continuation octet. -/
  least : UInt8
  /-- Greatest value of the first continuation octet. -/
  greatest : UInt8
  /-- The lead octet's part of the code point. -/
  bits : Nat

/-- The demands of a lead octet; none for an octet that leads nothing. -/
def Lead.of? (b : UInt8) : Option Lead :=
  if 0xc2 ≤ b ∧ b ≤ 0xdf then some ⟨1, 0x80, 0xbf, b.toNat % 0x20⟩
  else if b = 0xe0 then some ⟨2, 0xa0, 0xbf, 0⟩
  else if b = 0xed then some ⟨2, 0x80, 0x9f, 0xd⟩
  else if 0xe1 ≤ b ∧ b ≤ 0xef then some ⟨2, 0x80, 0xbf, b.toNat % 0x10⟩
  else if b = 0xf0 then some ⟨3, 0x90, 0xbf, 0⟩
  else if 0xf1 ≤ b ∧ b ≤ 0xf3 then some ⟨3, 0x80, 0xbf, b.toNat % 0x08⟩
  else if b = 0xf4 then some ⟨3, 0x80, 0x8f, 4⟩
  else none

/-- Where the reader stands: between characters, or inside one. -/
inductive State where
  /-- Between characters. -/
  | start
  /-- `owed + 1` octets are due, the next one within a range; `bits` is what was read so far. -/
  | inside (owed : Nat) (least greatest : UInt8) (bits : Nat)

/-- Read one octet between characters: what it writes, and where the reader stands after it. -/
def first (b : UInt8) : List Char × State :=
  if b < 0x80 then ([Char.ofNat b.toNat], .start)
  else
    match Lead.of? b with
    | some lead => ([], .inside (lead.owed - 1) lead.least lead.greatest lead.bits)
    | none => ([replacement], .start)

/-- Read one octet. -/
def step (s : State) (b : UInt8) : List Char × State :=
  match s with
  | .start => first b
  | .inside owed least greatest bits =>
    if least ≤ b ∧ b ≤ greatest then
      let bits := bits * 0x40 + b.toNat % 0x40
      match owed with
      | 0 => ([Char.ofNat bits], .start)
      | owed + 1 => ([], .inside owed 0x80 0xbf bits)
    else
      let (cs, s') := first b
      (replacement :: cs, s')

/-- Read octets from a state; an end inside a character writes one replacement. -/
def decodeFrom : State → List UInt8 → List Char
  | .start, [] => []
  | .inside .., [] => [replacement]
  | s, b :: rest => (step s b).1 ++ decodeFrom (step s b).2 rest

/-- The characters of a list of octets, broken sequences replaced. -/
def decode (bs : List UInt8) : List Char := decodeFrom .start bs

/-- ASCII octets are their own characters. -/
theorem decode_ascii {bs : List UInt8} (h : ∀ b ∈ bs, b < 0x80) :
    decode bs = bs.map fun b => Char.ofNat b.toNat := by
  unfold decode
  induction bs with
  | nil => rfl
  | cons b rest ih =>
    have hb := h b List.mem_cons_self
    have hr := ih fun x hx => h x (List.mem_cons_of_mem _ hx)
    simp [decodeFrom, step, first, hb, hr]

end Telemetry.Text.Utf8
