/-!
# Digits
-/

namespace Coupling.Text

/-- The value of a decimal digit. -/
def decimalValue (c : Char) : Nat := c.toNat - '0'.toNat

def hexValue? (c : Char) : Option Nat :=
  if c.isDigit then some (decimalValue c)
  else if 'a' ≤ c && c ≤ 'f' then some (c.toNat - 'a'.toNat + 10)
  else if 'A' ≤ c && c ≤ 'F' then some (c.toNat - 'A'.toNat + 10)
  else none

def isDigitIn (base : Nat) (c : Char) : Bool := (hexValue? c).any (· < base)

/-- The number that digits stand for; what is no digit counts as zero. -/
def numberIn (base : Nat) (digits : List Char) : Nat :=
  digits.foldl (fun n c => base * n + (hexValue? c).getD 0) 0

def hexNumber? (cs : List Char) : Option Nat :=
  if cs.all (isDigitIn 16) then some (numberIn 16 cs) else none

end Coupling.Text
