import Coupling.Json.Record
import Coupling.Snapshot.Basic

/-!
# The JSON form of snapshots

Writing puts every field; reading accepts whatever `RecordFormat.read` does, with `elements`,
`visible`, `abstract`, `dependencies` and `description` optional.
-/

namespace Coupling

open Json (Field Reader RecordFormat Value)

def Element.format : RecordFormat Element where
  name := "Element"
  initial := ⟨"", false, false⟩
  fields :=
    [Field.of "name" true Json.readText fun x s => { x with name := s },
      Field.of "visible" false Json.readBool fun x b => { x with isVisible := b },
      Field.of "abstract" false Json.readBool fun x b => { x with isAbstract := b }]

def ComponentRecord.format : RecordFormat ComponentRecord where
  name := "ComponentRecord"
  initial := ⟨"", []⟩
  fields :=
    [Field.of "id" true Json.readText fun c s => { c with id := s },
      Field.of "elements" false (Json.readList Element.format.read)
        fun c l => { c with elements := l }]

def Dependency.format : RecordFormat Dependency where
  name := "Dependency"
  initial := ⟨"", "", ""⟩
  fields :=
    [Field.of "origin" true Json.readText fun d s => { d with origin := s },
      Field.of "target" true Json.readText fun d s => { d with target := s },
      Field.of "description" false Json.readText fun d s => { d with description := s }]

def Snapshot.format : RecordFormat Snapshot where
  name := "Snapshot"
  initial := ⟨[], []⟩
  fields :=
    [Field.of "components" true (Json.readList ComponentRecord.format.read)
        fun s l => { s with components := l },
      Field.of "dependencies" false (Json.readList Dependency.format.read)
        fun s l => { s with dependencies := l }]

def Snapshot.read : Reader Snapshot := Snapshot.format.read

def Snapshot.ofText (text : String) : Except Json.ReadFault Snapshot :=
  (Json.parse text).read Snapshot.read

def Element.toJson (x : Element) : Value :=
  .object [("name", .text x.name), ("visible", .bool x.isVisible), ("abstract", .bool x.isAbstract)]

def ComponentRecord.toJson (c : ComponentRecord) : Value :=
  .object [("id", .text c.id), ("elements", .array (c.elements.map Element.toJson))]

def Dependency.toJson (d : Dependency) : Value :=
  .object [("origin", .text d.origin), ("target", .text d.target),
    ("description", .text d.description)]

def Snapshot.toJson (s : Snapshot) : Value :=
  .object [("components", .array (s.components.map ComponentRecord.toJson)),
    ("dependencies", .array (s.dependencies.map Dependency.toJson))]

end Coupling
