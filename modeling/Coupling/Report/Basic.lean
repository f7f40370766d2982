import Coupling.Json.Printer

/-!
# Reports

Whatever a command finds can be written for readers and as JSON.
-/

namespace Coupling

inductive OutputFormat where
  | plain
  | json
  deriving DecidableEq, Repr

class Report (α : Type) where
  plain : α → String
  json : α → Json.Value

def OutputFormat.render {α : Type} [Report α] (format : OutputFormat) (a : α)
    (print : Json.Value → String := Json.Value.print) : String :=
  match format with
  | .plain => Report.plain a
  | .json => print (Report.json a) ++ "\n"

namespace Json.Value

def nat (n : Nat) : Value := .number (.integer n)

def float (x : Float) : Value := .number (.double x)

end Json.Value

end Coupling
