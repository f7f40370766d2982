import Coupling.Decimal.Fixed

/-!
# The layout of reports for readers

Texts are padded by the number of their characters and never cut.
-/

namespace Coupling.Layout

def line (s : String) : String := s ++ "\n"

def blanks (n : Nat) : String := String.ofList (List.replicate n ' ')

def alignLeft (width : Nat) (s : String) : String := s ++ blanks (width - s.length)

def alignRight (width : Nat) (s : String) : String := blanks (width - s.length) ++ s

def ruleWidth : Nat := 72

def rule : String := line (String.ofList (List.replicate ruleWidth '-'))

def title (s : String) : String := line s ++ rule

def entry (key value : String) : String := line (alignLeft 8 (key ++ ":") ++ " " ++ value)

/-- Ratios have four decimal places. -/
def ratio (x : Float) : String := Decimal.fixed 4 x

/-- A column of a table, aligned to the right. -/
structure Column (α : Type) where
  title : String
  width : Nat
  cell : α → String

/-- A line of a table of components; `text` picks what stands in a column. -/
def row {α : Type} (name : String) (columns : List (Column α)) (text : Column α → String) :
    String :=
  line (alignLeft 32 name ++
    String.join (columns.map fun column => " " ++ alignRight column.width (text column)))

def table {α : Type} (name : α → String) (columns : List (Column α)) (l : List α) : String :=
  row "COMPONENT" columns Column.title ++
    String.join (l.map fun a => row (name a) columns fun column => column.cell a)

end Coupling.Layout
