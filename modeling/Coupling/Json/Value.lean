/-!
# JSON values

The members of an object stand in the order of the text, repeated names included; a member has no
name where the text gives half a surrogate pair for it. Two further forms make a tree of every
text, well formed or not: a literal that can be skipped but stands for no value, and the place
where the text stops being JSON. `isWhole` tells whether a tree has no such place.
-/

namespace Coupling.Json

inductive Number where
  | integer (value : Int)
  | double (value : Float)

inductive Value where
  | null
  | bool (value : Bool)
  | number (value : Number)
  | text (value : String)
  | array (items : List Value)
  | object (members : List (Option String × Value))
  /-- Text with half a surrogate pair, or a number beyond the doubles. -/
  | unreadable
  | broken

namespace Value

mutual

def isWhole : Value → Bool
  | null => true
  | bool _ => true
  | number _ => true
  | text _ => true
  | array items => areWhole items
  | object members => membersAreWhole members
  | unreadable => true
  | broken => false

def areWhole : List Value → Bool
  | [] => true
  | v :: rest => isWhole v && areWhole rest

def membersAreWhole : List (Option String × Value) → Bool
  | [] => true
  | (_, v) :: rest => isWhole v && membersAreWhole rest

end

end Value

/-- What a text holds, and whether nothing but white space follows it. -/
structure Document where
  value : Value
  complete : Bool

end Coupling.Json
