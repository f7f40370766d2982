import Coupling.Decimal.Double

/-!
# The shortest decimal that reads back

Of all decimals that are nearer to a given double than to any other, the one with the fewest
digits is taken, and of those with the same number of digits the nearest; of two equally near the
one with the even last digit. The neighbours of the value on the grids of 1, 2, … 17 digits are
compared with the ends of the interval in exact integer arithmetic.
-/

namespace Coupling.Decimal

/-- The decimal `digits * 10 ^ exponent`. -/
structure Scientific where
  digits : Nat
  exponent : Int
  deriving DecidableEq, Repr

def digitCount (n : Nat) : Nat := (Nat.toDigits 10 n).length

/-- The exponent of the first digit of the positive fraction. -/
def leadingExponent (numerator denominator : Nat) : Int :=
  if denominator ≤ numerator then (digitCount (numerator / denominator) : Int) - 1
  else -(digitCount ((denominator - 1) / numerator) : Int)

/-- A double with the reals that round to it, in quarters of the place of its last bit. -/
structure Interval where
  low : Nat
  value : Nat
  high : Nat
  closed : Bool
  exponent : Int

/-- Below a power of two the next double is only half as far away. -/
def Interval.of (significand : Nat) (exponent : Int) : Interval where
  low :=
    if significand = 0x10000000000000 && leastExponent < exponent then 4 * significand - 1
    else 4 * significand - 2
  value := 4 * significand
  high := 4 * significand + 2
  closed := significand % 2 = 0
  exponent := exponent - 2

/-- The neighbour of the value on the grid of multiples of `10 ^ place` that reads back. -/
def Interval.neighbour? (i : Interval) (place : Int) : Option Scientific :=
  let grid := power 10 place * power 2 (-i.exponent)
  let unit := power 2 i.exponent * power 10 (-place)
  let below := i.value * unit / grid
  let above := below + 1
  let inside (n : Nat) : Bool :=
    if i.closed then i.low * unit ≤ n * grid && n * grid ≤ i.high * unit
    else i.low * unit < n * grid && n * grid < i.high * unit
  let down := i.value * unit - below * grid
  let up := above * grid - i.value * unit
  match inside below, inside above with
  | true, true =>
    if down < up || (down = up && below % 2 = 0) then some ⟨below, place⟩
    else some ⟨above, place⟩
  | true, false => some ⟨below, place⟩
  | false, true => some ⟨above, place⟩
  | false, false => none

/-- Moves trailing zeros of the digits into the exponent. -/
def Scientific.normalize (d : Scientific) : Scientific :=
  if h : d.digits ≠ 0 ∧ d.digits % 10 = 0 then normalize ⟨d.digits / 10, d.exponent + 1⟩ else d
  termination_by d.digits
  decreasing_by exact Nat.div_lt_self (Nat.pos_of_ne_zero h.1) (by decide)

/-- Seventeen digits always tell doubles apart. -/
def shortest (significand : Nat) (exponent : Int) : Scientific :=
  let i := Interval.of significand exponent
  let leading :=
    leadingExponent (significand * power 2 exponent) (power 2 (-exponent))
  match (List.range 17).findSome? fun d : Nat => i.neighbour? (leading - d) with
  | some d => d.normalize
  | none => ⟨0, 0⟩

/-- Where exponents begin: a number `0.d₁d₂… * 10 ^ point` is written without one if its `point`
lies above `above` and is at most `upTo`. -/
structure Layout where
  above : Int
  upTo : Int

def Layout.isPositional (layout : Layout) (point : Int) : Bool :=
  layout.above < point && point ≤ layout.upTo

/-- Every whole number keeps one zero behind the point. -/
def positional (digits : List Char) (point : Int) : List Char :=
  if point ≤ 0 then "0.".toList ++ List.replicate (-point).toNat '0' ++ digits
  else if digits.length ≤ point.toNat then
    digits ++ List.replicate (point.toNat - digits.length) '0' ++ ".0".toList
  else digits.take point.toNat ++ '.' :: digits.drop point.toNat

/-- The exponent has a sign also where it is positive. -/
def scientific (digits : List Char) (point : Int) : List Char :=
  let mantissa :=
    match digits with
    | first :: second :: rest => first :: '.' :: second :: rest
    | digits => digits
  let sign := if point ≤ 0 then '-' else '+'
  mantissa ++ 'e' :: sign :: Nat.toDigits 10 (point - 1).natAbs

def Scientific.text (layout : Layout) (d : Scientific) : String :=
  let digits := Nat.toDigits 10 d.digits
  let point := digits.length + d.exponent
  String.ofList
    (if layout.isPositional point then positional digits point else scientific digits point)

/-- The text of a finite double; none for the others. -/
def shortestText? (layout : Layout) (x : Float) : Option String :=
  match Double.ofFloat x with
  | .finite negative significand exponent =>
    let sign := if negative then "-" else ""
    let text :=
      if significand = 0 then "0.0" else (shortest significand exponent).text layout
    some (sign ++ text)
  | _ => none

end Coupling.Decimal
