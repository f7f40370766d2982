/-!
# TOML values

Floats, dates and times are kept as they are written, in parts.
-/

namespace Coupling.Toml

inductive Float where
  /-- The number `digits * 10 ^ exponent`. -/
  | decimal (negative : Bool) (digits : Nat) (exponent : Int)
  | infinity (negative : Bool)
  | nan
  deriving DecidableEq, Repr

structure Date where
  year : Nat
  month : Nat
  day : Nat
  deriving DecidableEq, Repr

structure Time where
  hour : Nat
  minute : Nat
  second : Nat
  /-- The digits behind the point of the seconds. -/
  fraction : List Char
  deriving DecidableEq, Repr

inductive Moment where
  | date (date : Date)
  | time (time : Time)
  /-- The offset from universal time is in minutes. -/
  | both (date : Date) (time : Time) (offset : Option Int)
  deriving DecidableEq, Repr

inductive Value where
  | text (value : String)
  | integer (value : Int)
  | float (value : Float)
  | boolean (value : Bool)
  | moment (value : Moment)
  | array (items : List Value)
  | table (entries : List (String × Value))

/-- A dotted key: the names of the tables that lead to a name, and that name. -/
structure Key where
  parents : List String
  name : String
  deriving DecidableEq, Repr

end Coupling.Toml
