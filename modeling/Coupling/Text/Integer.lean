import Coupling.Text.Digit

/-!
# Reading a signed 64-bit integer

An optional sign and at least one decimal digit, nothing else. The digits are read from the left,
and the first thing wrong is the fault: a character that is no digit, or a value that has left the
range.
-/

namespace Coupling.Text

inductive IntegerFault where
  | empty
  | invalidDigit
  | tooLarge
  | tooSmall
  deriving DecidableEq, Repr

def IntegerFault.message : IntegerFault → String
  | empty => "cannot parse integer from empty string"
  | invalidDigit => "invalid digit found in string"
  | tooLarge => "number too large to fit in target type"
  | tooSmall => "number too small to fit in target type"

/-- Reads digits on top of `value`; a value above `bound` is the fault `beyond`. -/
def readMagnitude (bound : Nat) (beyond : IntegerFault) : Nat → List Char → Except IntegerFault Nat
  | value, [] => .ok value
  | value, c :: cs =>
    if c.isDigit then
      let value := 10 * value + decimalValue c
      if value ≤ bound then readMagnitude bound beyond value cs else .error beyond
    else .error .invalidDigit

def readPositive (cs : List Char) : Except IntegerFault Int :=
  match cs with
  | [] => .error .invalidDigit
  | cs => (readMagnitude 0x7fffffffffffffff .tooLarge 0 cs).map Int.ofNat

def readInteger (cs : List Char) : Except IntegerFault Int :=
  match cs with
  | [] => .error .empty
  | '+' :: cs => readPositive cs
  | '-' :: [] => .error .invalidDigit
  | '-' :: cs => (readMagnitude 0x8000000000000000 .tooSmall 0 cs).map fun n => -(n : Int)
  | cs => readPositive cs

end Coupling.Text
