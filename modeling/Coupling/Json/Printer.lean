import Coupling.Decimal.Shortest
import Coupling.Json.Value

/-!
# Writing JSON

Every item and member stands on a line of its own, two spaces further in than the brackets around
it; an array or object without any is closed at once.
-/

namespace Coupling.Json

/-- Positional from 0.00001 up to sixteen digits before the point. -/
def doubleLayout : Decimal.Layout := ⟨-5, 16⟩

def escape (c : Char) : List Char :=
  match c with
  | '"' => ['\\', '"']
  | '\\' => ['\\', '\\']
  | '\x08' => ['\\', 'b']
  | '\x0c' => ['\\', 'f']
  | '\n' => ['\\', 'n']
  | '\r' => ['\\', 'r']
  | '\t' => ['\\', 't']
  | c =>
    if c.toNat < 0x20 then
      ['\\', 'u', '0', '0', Nat.digitChar (c.toNat / 16), Nat.digitChar (c.toNat % 16)]
    else [c]

def quote (s : String) : String := String.ofList ('"' :: s.toList.flatMap escape ++ ['"'])

/-- A member that has no name is written with the empty one. -/
def memberName (name : Option String) : String := quote (name.getD "") ++ ": "

def Number.print : Number → String
  | integer i => toString i
  | double x => (Decimal.shortestText? doubleLayout x).getD "null"

def newline (depth : Nat) : String := String.ofList ('\n' :: List.replicate (2 * depth) ' ')

namespace Value

mutual

/-- Appends a value whose first line stands `depth` steps further in. -/
def printOnto (out : String) (depth : Nat) : Value → String
  | null => out ++ "null"
  | bool b => out ++ if b then "true" else "false"
  | number n => out ++ n.print
  | text s => out ++ quote s
  | array [] => out ++ "[]"
  | array (v :: rest) =>
    printItemsOnto (printOnto (out ++ "[" ++ newline (depth + 1)) (depth + 1) v) (depth + 1) rest
      ++ newline depth ++ "]"
  | object [] => out ++ "\x7b\x7d"
  | object ((name, v) :: rest) =>
    printMembersOnto
      (printOnto (out ++ "\x7b" ++ newline (depth + 1) ++ memberName name) (depth + 1) v)
      (depth + 1) rest ++ newline depth ++ "\x7d"
  | unreadable => out ++ "null"
  | broken => out ++ "null"

def printItemsOnto (out : String) (depth : Nat) : List Value → String
  | [] => out
  | v :: rest => printItemsOnto (printOnto (out ++ "," ++ newline depth) depth v) depth rest

def printMembersOnto (out : String) (depth : Nat) : List (Option String × Value) → String
  | [] => out
  | (name, v) :: rest =>
    printMembersOnto (printOnto (out ++ "," ++ newline depth ++ memberName name) depth v)
      depth rest

end

def print (v : Value) : String := printOnto "" 0 v

end Value

end Coupling.Json
