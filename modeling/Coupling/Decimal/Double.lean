/-!
# Doubles as exact numbers

A finite double is a significand times a power of two. Everything that is written in decimal
starts from these two integers.
-/

namespace Coupling.Decimal

/-- A finite value is `significand * 2 ^ exponent`, with the sign apart. -/
inductive Double where
  | nan
  | infinite (negative : Bool)
  | finite (negative : Bool) (significand : Nat) (exponent : Int)
  deriving DecidableEq, Repr

/-- The least exponent of a double; a significand with this exponent may have any size. -/
def leastExponent : Int := -1074

def Double.ofBits (bits : UInt64) : Double :=
  let negative := bits >>> 63 = 1
  let biased := ((bits >>> 52) &&& 0x7ff).toNat
  let fraction := (bits &&& 0xfffffffffffff).toNat
  if biased = 0x7ff then if fraction = 0 then .infinite negative else .nan
  else if biased = 0 then .finite negative fraction leastExponent
  else .finite negative (0x10000000000000 + fraction) (biased - 1075)

def Double.ofFloat (x : Float) : Double := .ofBits x.toBits

/-- Powers of two and ten of which one factor is one. -/
def power (base : Nat) (exponent : Int) : Nat := Nat.pow base exponent.toNat

end Coupling.Decimal
