import Coupling.Toml.Value

/-!
# Defining tables

A table is defined once: by a header, inside a value, or by the dotted keys of one table. A header
also implies the tables on the way to its own, and a later header may define one of these.
-/

namespace Coupling.Toml

inductive Origin where
  | defined
  /-- On the way to the table of a header. -/
  | implied
  /-- On the way of a dotted key. -/
  | dotted
  deriving DecidableEq, Repr

inductive Node where
  | value (value : Value)
  | table (origin : Origin) (entries : List (String × Node))
  /-- The tables under one repeated header; new entries go into the last. -/
  | tables (earlier : List (List (String × Node))) (last : List (String × Node))

structure Table where
  origin : Origin
  entries : List (String × Node)

/-- Changes what stands under a name, which may be nothing. -/
def alter (name : String) (change : Option Node → Option Node) :
    List (String × Node) → Option (List (String × Node))
  | [] => (change none).map fun node => [(name, node)]
  | (name', node) :: rest =>
    if name' = name then (change (some node)).map fun node => (name', node) :: rest
    else (alter name change rest).map ((name', node) :: ·)

namespace Table

def empty : Table := ⟨.defined, []⟩

def asNode (t : Table) : Node := .table t.origin t.entries

def alter (name : String) (change : Option Node → Option Node) (t : Table) : Option Table :=
  (Toml.alter name change t.entries).map (Table.mk t.origin)

/-- Changes the table at the end of a path. Tables that are not there yet come from `origin`, and
dotted keys do not lead through tables that are defined. -/
def descend (origin : Origin) (change : Table → Option Table) : List String → Table → Option Table
  | [], t => change t
  | name :: path, t =>
    t.alter name fun
      | none => (descend origin change path ⟨origin, []⟩).map asNode
      | some (.value _) => none
      | some (.table origin' entries) =>
        if origin = .dotted ∧ origin' = .defined then none
        else (descend origin change path ⟨origin', entries⟩).map asNode
      | some (.tables earlier last) =>
        (descend origin change path ⟨.defined, last⟩).map fun t => .tables earlier t.entries

/-- The header of a table. -/
def define (key : Key) : Table → Option Table :=
  descend .implied
    (alter key.name fun
      | none => some (.table .defined [])
      | some (.table .implied entries) => some (.table .defined entries)
      | some _ => none)
    key.parents

/-- The header of one more table under a name. -/
def append (key : Key) : Table → Option Table :=
  descend .implied
    (alter key.name fun
      | none => some (.tables [] [])
      | some (.tables earlier last) => some (.tables (earlier ++ [last]) [])
      | some _ => none)
    key.parents

/-- Gives a new name its value. A dotted key adds only to tables that came from dotted keys. -/
def assign (key : Key) (v : Value) : Table → Option Table :=
  descend .dotted
    (fun t =>
      if t.origin = .dotted ↔ key.parents ≠ [] then
        t.alter key.name fun
          | none => some (.value v)
          | some _ => none
      else none)
    key.parents

end Table

mutual

def Node.toValue : Node → Value
  | .value v => v
  | .table _ entries => .table (entryValues entries)
  | .tables earlier last => .array (tableValues earlier ++ [.table (entryValues last)])

def entryValues : List (String × Node) → List (String × Value)
  | [] => []
  | (name, node) :: rest => (name, node.toValue) :: entryValues rest

def tableValues : List (List (String × Node)) → List Value
  | [] => []
  | entries :: rest => .table (entryValues entries) :: tableValues rest

end

def Table.values (t : Table) : List (String × Value) := entryValues t.entries

/-- The table of the assignments of an inline table. -/
def Table.ofAssignments (assignments : List (Key × Value)) : Option Table :=
  assignments.foldlM (fun t (key, v) => t.assign key v) .empty

end Coupling.Toml
