/-!
# Draws

A deterministic source of the numbers that full reservoirs draw: a 64-bit state that moves on by a
fixed step and is scrambled into each number. Nothing but the choice of retained values hangs on it.
-/

namespace Telemetry.Sampling

/-- A source of numbers. -/
structure Draw where
  state : UInt64
  deriving DecidableEq, Repr, Inhabited

namespace Draw

/-- Scramble a state into a number. -/
def scramble (s : UInt64) : UInt64 :=
  let a := (s ^^^ (s >>> 30)) * 0xbf58476d1ce4e5b9
  let b := (a ^^^ (a >>> 27)) * 0x94d049bb133111eb
  b ^^^ (b >>> 31)

/-- A number from zero to `greatest`, and the source after it. -/
def upTo (d : Draw) (greatest : Nat) : Nat × Draw :=
  let next := d.state + 0x9e3779b97f4a7c15
  ((scramble next).toNat % (greatest + 1), ⟨next⟩)

/-- A draw is never above what was asked for. -/
theorem upTo_le (d : Draw) (greatest : Nat) : (d.upTo greatest).1 ≤ greatest :=
  Nat.lt_succ_iff.mp (Nat.mod_lt _ (Nat.succ_pos _))

end Draw

end Telemetry.Sampling
