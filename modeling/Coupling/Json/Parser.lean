import Coupling.Json.Token

/-!
# From tokens to a value

One token after the other moves a builder on, which holds the arrays and objects still open. Where
a token does not fit, everything open is closed around `Value.broken`, so that a reader of the
value meets what stands before that place in the order of the text.
-/

namespace Coupling.Json

/-- An open array or object with its latest item first. A member whose name is still to come has
none. -/
inductive Open where
  | array (before : List Value)
  | object (before : List (Option String × Value)) (name : Option String)

inductive Expected where
  | value
  | firstValue
  | name
  | firstName
  | colon
  | separator

inductive Builder where
  | building (expected : Expected) (opened : List Open)
  | built (value : Value)
  | stopped (value : Value)

def Open.close : Open → Value
  | array before => .array before.reverse
  | object before _ => .object before.reverse

def Open.add (v : Value) : Open → Open
  | array before => .array (v :: before)
  | object before name => .object ((name, v) :: before) none

/-- Closes everything open around the place where the text stops being JSON. -/
def stop (opened : List Open) : Value := opened.foldl (fun v o => (o.add v).close) .broken

/-- Goes on behind a value. -/
def Builder.put (v : Value) : List Open → Builder
  | [] => .built v
  | o :: outer => .building .separator (o.add v :: outer)

/-- A token where a value is expected. -/
def Builder.begin (opened : List Open) : Token → Builder
  | .openArray => .building .firstValue (.array [] :: opened)
  | .openObject => .building .firstName (.object [] none :: opened)
  | .scalar v => .put v opened
  | .text (some s) => .put (.text s) opened
  | .text none => .put .unreadable opened
  | _ => .stopped (stop opened)

def Builder.step : Builder → Token → Builder
  | .building .value opened, t => .begin opened t
  | .building .firstValue (o :: outer), .closeArray => .put o.close outer
  | .building .firstValue opened, t => .begin opened t
  | .building .firstName (o :: outer), .closeObject => .put o.close outer
  | .building .firstName (.object before _ :: outer), .text name =>
    .building .colon (.object before name :: outer)
  | .building .name (.object before _ :: outer), .text name =>
    .building .colon (.object before name :: outer)
  | .building .colon opened, .colon => .building .value opened
  | .building .separator (.array before :: outer), .comma =>
    .building .value (.array before :: outer)
  | .building .separator (.array before :: outer), .closeArray =>
    .put (Open.array before).close outer
  | .building .separator (.object before name :: outer), .comma =>
    .building .name (.object before name :: outer)
  | .building .separator (.object before name :: outer), .closeObject =>
    .put (Open.object before name).close outer
  | .building _ opened, _ => .stopped (stop opened)
  | .built v, _ => .stopped v
  | .stopped v, _ => .stopped v

def Builder.finish : Builder → Document
  | .building _ opened => ⟨stop opened, false⟩
  | .built v => ⟨v, true⟩
  | .stopped v => ⟨v, false⟩

def parse (text : String) : Document :=
  ((tokens text).foldl Builder.step (.building .value [])).finish

end Coupling.Json
