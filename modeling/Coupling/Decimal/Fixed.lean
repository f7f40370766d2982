import Coupling.Decimal.Double

/-!
# A fixed number of decimal places

The exact value is rounded to the nearest multiple of the last place, a half to the even
neighbour. The sign of a negative value is kept even where only zeros are left.
-/

namespace Coupling.Decimal

def roundHalfEven (numerator denominator : Nat) : Nat :=
  let quotient := numerator / denominator
  let twice := 2 * (numerator % denominator)
  if twice < denominator then quotient
  else if denominator < twice then quotient + 1
  else quotient + quotient % 2

def padLeft (width : Nat) (fill : Char) (digits : List Char) : List Char :=
  List.replicate (width - digits.length) fill ++ digits

def fixedDigits (places : Nat) (significand : Nat) (exponent : Int) : String :=
  let scaled :=
    roundHalfEven (significand * power 10 places * power 2 exponent) (power 2 (-exponent))
  let digits := padLeft (places + 1) '0' (Nat.toDigits 10 scaled)
  let whole := digits.length - places
  String.ofList (digits.take whole ++ '.' :: digits.drop whole)

def fixed (places : Nat) (x : Float) : String :=
  match Double.ofFloat x with
  | .nan => "NaN"
  | .infinite negative => if negative then "-inf" else "inf"
  | .finite negative significand exponent =>
    (if negative then "-" else "") ++ fixedDigits places significand exponent

end Coupling.Decimal
