import Coupling.Toml.Scalar
import Coupling.Toml.Table

/-!
# TOML documents

A document is read line by line into statements, and the statements build its tables.
-/

namespace Coupling.Toml

open Text (Parser)
open Text.Parser

inductive Statement where
  | table (key : Key)
  | tables (key : Key)
  | assign (key : Key) (value : Value)

def spaces : Parser Unit := do
  let _ ← takeWhile isSpace

/-- A comment goes on to the end of its line. -/
def commentFrom (c : Char) : Parser Unit := do
  guard (c = '#')
  let _ ← takeWhile isPlain

/-- White space, line breaks and comments between the items of an array. -/
def blanks : Parser Unit := do
  let _ ← many fun c => guard (isSpace c) <|> newlineFrom c <|> commentFrom c

def isBare (c : Char) : Bool := c.isAlphanum || c = '_' || c = '-'

def bareName : Parser String := do
  let cs ← takeWhile isBare
  guard !cs.isEmpty
  return String.ofList cs

def name : Parser String := basicText <|> literalText <|> bareName

/-- A key of many parts would nest as many tables, so their number is limited. -/
def maxParts : Nat := 79

def key : Parser Key := do
  let first ← name
  spaces
  let more ← many fun c => do
    guard (c = '.')
    spaces
    let name ← name
    spaces
    return name
  guard (more.length < maxParts)
  return ⟨(first :: more).dropLast, more.getLastD first⟩

/-- One or more of what `item` reads, separated by commas with `between` around them. -/
def commaSeparated {α : Type} (between : Parser Unit) (item : Parser α) : Parser (List α) := do
  let first ← item
  between
  let more ← many fun c => do
    guard (c = ',')
    between
    let a ← item
    between
    return a
  return first :: more

/-- The last item may be followed by a comma. -/
def array (value : Parser Value) : Parser (List Value) := do
  char '['
  blanks
  let items ← (do
    let items ← commaSeparated blanks value
    let _ ← optional (char ',')
    return items) <|> return []
  blanks
  char ']'
  return items

def assignment (value : Parser Value) : Parser (Key × Value) := do
  let key ← key
  char '='
  spaces
  return (key, ← value)

def inlineTable (value : Parser Value) : Parser (List (String × Value)) := do
  char '\x7b'
  spaces
  let assignments ← commaSeparated spaces (assignment value) <|> return []
  char '\x7d'
  match Table.ofAssignments assignments with
  | some t => return t.values
  | none => failure

/-- Values nest arrays and inline tables up to a depth. -/
def value : Nat → Parser Value
  | 0 => scalar
  | depth + 1 =>
    scalar <|> Value.array <$> array (value depth) <|> Value.table <$> inlineTable (value depth)

def maxDepth : Nat := 79

def header (opening closing : String) : Parser Key := do
  word opening
  spaces
  let key ← key
  word closing
  return key

def statement : Parser Statement :=
  Statement.tables <$> header "[[" "]]" <|> Statement.table <$> header "[" "]" <|> do
    let (key, v) ← assignment (value maxDepth)
    return .assign key v

def line : Parser (Option Statement) := do
  spaces
  let s ← optional statement
  spaces
  let _ ← optional (do commentFrom (← next))
  return s

/-- A byte order mark may stand in front. -/
def statements : Parser (List Statement) := do
  let _ ← optional (char '\ufeff')
  let first ← line
  let more ← many fun c => do
    newlineFrom c
    line
  atEnd
  return (first :: more).filterMap id

/-- The tables so far and the path of the latest header, under which assignments go. -/
structure Document where
  root : Table
  header : List String

namespace Document

def empty : Document := ⟨.empty, []⟩

def add (d : Document) : Statement → Option Document
  | .table key => (d.root.define key).map fun t => ⟨t, key.parents ++ [key.name]⟩
  | .tables key => (d.root.append key).map fun t => ⟨t, key.parents ++ [key.name]⟩
  | .assign key v =>
    (d.root.descend .implied (Table.assign key v) d.header).map fun t => ⟨t, d.header⟩

end Document

/-- The entries of a document that is well formed. -/
def parse (text : String) : Option (List (String × Value)) := do
  let statements ← statements.run text
  let d ← statements.foldlM Document.add .empty
  return d.root.values

end Coupling.Toml
