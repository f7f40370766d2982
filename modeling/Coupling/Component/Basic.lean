import Coupling.Collection.IndexedSet
import Coupling.Collection.Indexing
import Coupling.Failure
import Coupling.Text.Blank

/-!
# Components

A component is a named grouping of code elements, each listed once. In a set of components every
identifier is distinct and has a character that is not white space, so that identifiers are a key.
-/

namespace Coupling

structure Component (ε : Type) where
  id : String
  elements : List ε
  nodup : elements.Nodup

/-- Repeated elements are kept once, where they stand first. -/
def Component.ofList {ε : Type} [DecidableEq ε] [Hashable ε] (id : String) (elements : List ε) :
    Component ε where
  id
  elements := (IndexedSet.ofList elements).toList
  nodup := (IndexedSet.ofList elements).nodup_toList

structure Components (ε : Type) where
  ids : IndexedSet String
  entries : Vector (Component ε) ids.size
  ids_eq : entries.toList.map Component.id = ids.toList

namespace Components

variable {ε : Type}

abbrev size (cs : Components ε) : Nat := cs.ids.size

def get (cs : Components ε) (i : Fin cs.size) : Component ε := cs.entries[i]

def toList (cs : Components ε) : List (Component ε) := cs.entries.toList

def position? (cs : Components ε) (id : String) : Option (Fin cs.size) := cs.ids.position? id

def get? (cs : Components ε) (id : String) : Option (Component ε) := (cs.position? id).map cs.get

def empty : Components ε where
  ids := .empty
  entries := #v[]
  ids_eq := rfl

def push (cs : Components ε) (c : Component ε) (fresh : cs.ids.positions[c.id]? = none) :
    Components ε where
  ids := cs.ids.push c.id fresh
  entries := (cs.entries.push c).cast (cs.ids.size_push c.id fresh).symm
  ids_eq := by
    rw [Vector.toList_cast, Vector.toList_push, List.map_append, cs.ids_eq, IndexedSet.toList_push]
    rfl

theorem id_get (cs : Components ε) (i : Fin cs.size) : (cs.get i).id = cs.ids.get i := by
  have h := congrArg (fun l => l[i.val]?) cs.ids_eq
  simpa [get, IndexedSet.toList, IndexedSet.get] using h

/-- Adds a component unless its identifier is blank or taken; blank is noticed first. -/
def add (cs : Components ε) (c : Component ε) : Except Failure (Components ε) :=
  if Text.isBlankText c.id then .error (.unusable (.blankComponent cs.size))
  else
    match h : cs.ids.position? c.id with
    | some _ => .error (.unusable (.repeatedComponent c.id))
    | none => .ok (cs.push c (IndexedSet.positions_eq_none h))

def ofList (l : List (Component ε)) : Except Failure (Components ε) := l.foldlM add empty

theorem position?_eq_some_iff {cs : Components ε} {id : String} {i : Fin cs.size} :
    cs.position? id = some i ↔ (cs.get i).id = id := by
  rw [position?, IndexedSet.position?_eq_some_iff, id_get]

theorem toList_push (cs : Components ε) (c : Component ε)
    (fresh : cs.ids.positions[c.id]? = none) : (cs.push c fresh).toList = cs.toList ++ [c] := by
  simp only [toList, push]
  rw [Vector.toList_cast, Vector.toList_push]

end Components

end Coupling
