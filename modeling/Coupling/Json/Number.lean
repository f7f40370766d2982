import Coupling.Json.Value
import Coupling.Text.Digit

/-!
# Number literals

A literal without fraction and exponent whose value fits is an integer. Any other is a double: of
its digits those count that fit into 64 bits, and these are scaled by powers of ten in double
arithmetic. A literal whose double would be infinite stands for no value.
-/

namespace Coupling.Json

/-- The parts of a literal as they are written. -/
structure Literal where
  negative : Bool
  whole : List Char
  fraction : List Char
  /-- The sign of the exponent, true for minus, and its digits. -/
  exponent : Option (Bool × List Char)

/-- Appends digits to a number as long as it fits into 64 bits, and counts those left over. -/
def takeDigits : Nat → List Char → Nat × Nat
  | value, [] => (value, 0)
  | value, c :: cs =>
    let longer := 10 * value + Text.decimalValue c
    if longer < 0x10000000000000000 then takeDigits longer cs else (value, cs.length + 1)

/-- The largest exponent that is scaled in one step. -/
def greatestPower : Nat := 308

def powerOfTen (n : Nat) : Float := Float.ofScientific 1 false n

def scaleUp (x : Float) (n : Nat) : Option Float :=
  if n ≤ greatestPower then
    let y := x * powerOfTen n
    if y.isInf then none else some y
  else if x == 0 then some x else none

def scaleDown (x : Float) (n : Nat) : Float :=
  if n ≤ greatestPower then x / powerOfTen n
  else if x == 0 then x
  else scaleDown (x / powerOfTen greatestPower) (n - greatestPower)
  termination_by n
  decreasing_by
    unfold greatestPower at *
    omega

def scale (digits : Nat) (exponent : Int) : Option Float :=
  let x := (UInt64.ofNat digits).toFloat
  if 0 ≤ exponent then scaleUp x exponent.toNat else some (scaleDown x (-exponent).toNat)

/-- An exponent beyond 32 bits leads out of the range or to zero, whatever the digits. -/
def Literal.magnitude (l : Literal) : Option Float :=
  let (digits, dropped) := takeDigits 0 l.whole
  let (digits, unused) := takeDigits digits l.fraction
  let shift : Int := (dropped : Int) - ((l.fraction.length - unused : Nat) : Int)
  match l.exponent with
  | none => scale digits shift
  | some (negative, cs) =>
    let power := Text.numberIn 10 cs
    if power < 0x80000000 then scale digits (shift + if negative then -(power : Int) else power)
    else if negative || digits = 0 then some 0
    else none

def Literal.integer? (l : Literal) : Option Int :=
  let (digits, dropped) := takeDigits 0 l.whole
  if l.fraction.isEmpty && l.exponent.isNone && dropped = 0 then
    if l.negative then
      if 0 < digits && digits ≤ 0x8000000000000000 then some (-(digits : Int)) else none
    else some digits
  else none

def Literal.value (l : Literal) : Value :=
  match l.integer? with
  | some i => .number (.integer i)
  | none =>
    match l.magnitude with
    | some x => .number (.double (if l.negative then -x else x))
    | none => .unreadable

end Coupling.Json
