import Coupling.Json.Parser
import Coupling.Json.Printer
import Coupling.Text.Quoted

/-!
# Reading records out of JSON

A record is read from an object, where members that it does not know are skipped, or from an array
of its fields in order, which may end before optional fields. The value is read in the order of
the text and the first fault wins, so a text that breaks off later is first of all what it says
before that place.
-/

namespace Coupling.Json

inductive Shape where
  | text
  | boolean
  | sequence
  | record (name : String)

/-- How well-formed JSON fails to be a record. -/
inductive Mismatch where
  | missing (field : String)
  | repeated (field : String)
  | short (length : Nat) (record : String) (fields : Nat)
  | shape (found : Value) (expected : Shape)

inductive ReadFault where
  | malformed
  | mismatch (cause : Mismatch)

def Shape.description : Shape → String
  | text => "a string"
  | boolean => "a boolean"
  | sequence => "a sequence"
  | record name => s!"struct {name}"

def Value.description : Value → String
  | null => "null"
  | bool b => s!"boolean `{b}`"
  | number (.integer i) => s!"integer `{i}`"
  | number (.double x) => "floating point `" ++ (Number.double x).print ++ "`"
  | text s => "string " ++ Text.quoted s
  | array _ => "sequence"
  | object _ => "map"
  | unreadable => ""
  | broken => ""

def Mismatch.message : Mismatch → String
  | missing field => s!"missing field `{field}`"
  | repeated field => s!"duplicate field `{field}`"
  | short length record fields =>
    s!"invalid length {length}, expected struct {record} with {fields} elements"
  | shape found expected =>
    s!"invalid type: {found.description}, expected {expected.description}"

abbrev Reader (α : Type) := Value → Except ReadFault α

/-- The fault of a value that has another shape, or that is no value at all. -/
def misshapen {α : Type} (expected : Shape) : Reader α
  | .unreadable => .error .malformed
  | .broken => .error .malformed
  | v => .error (.mismatch (.shape v expected))

def readText : Reader String
  | .text s => .ok s
  | v => misshapen .text v

def readBool : Reader Bool
  | .bool b => .ok b
  | v => misshapen .boolean v

def readList {α : Type} (read : Reader α) : Reader (List α)
  | .array items => items.mapM read
  | v => misshapen .sequence v

/-- A field reads a value and puts it into the record. -/
structure Field (ρ : Type) where
  name : String
  required : Bool
  read : ρ → Reader ρ

def Field.of {α ρ : Type} (name : String) (required : Bool) (read : Reader α)
    (set : ρ → α → ρ) : Field ρ where
  name
  required
  read record v := (read v).map (set record)

/-- The fields stand in the order of declaration; `initial` has the defaults. -/
structure RecordFormat (ρ : Type) where
  name : String
  fields : List (Field ρ)
  initial : ρ

namespace RecordFormat

variable {ρ : Type}

/-- Reads members on top of a record of which the fields in `seen` have been read. -/
def readMembers (format : RecordFormat ρ) (record : ρ) (seen : List String) :
    List (Option String × Value) → Except ReadFault (ρ × List String)
  | [] => .ok (record, seen)
  | (none, _) :: _ => .error .malformed
  | (some name, v) :: rest =>
    match format.fields.find? (·.name = name) with
    | some field =>
      if name ∈ seen then .error (.mismatch (.repeated name))
      else do readMembers format (← field.read record v) (name :: seen) rest
    | none => if v.isWhole then readMembers format record seen rest else .error .malformed

def readObject (format : RecordFormat ρ) (members : List (Option String × Value)) :
    Except ReadFault ρ := do
  let (record, seen) ← format.readMembers format.initial [] members
  match format.fields.find? fun field => field.required && field.name ∉ seen with
  | some field => .error (.mismatch (.missing field.name))
  | none => return record

/-- Reads items into the remaining fields; `count` of them have been read before. -/
def readItems (format : RecordFormat ρ) (count : Nat) (record : ρ) :
    List (Field ρ) → List Value → Except ReadFault ρ
  | [], [] => .ok record
  | [], _ :: _ => .error .malformed
  | field :: fields, [] =>
    if field.required then .error (.mismatch (.short count format.name format.fields.length))
    else readItems format count record fields []
  | field :: fields, v :: rest => do
    readItems format (count + 1) (← field.read record v) fields rest

def read (format : RecordFormat ρ) : Reader ρ
  | .object members => format.readObject members
  | .array items => format.readItems 0 format.initial format.fields items
  | v => misshapen (.record format.name) v

end RecordFormat

/-- What follows the value matters only after the value has been read. -/
def Document.read {α : Type} (read : Reader α) (document : Document) : Except ReadFault α := do
  let a ← read document.value
  if document.complete then return a else .error .malformed

end Coupling.Json
