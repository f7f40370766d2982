import Coupling.Proofs.Json.Record
import Coupling.Snapshot.Format

/-!
# What is read as a snapshot

The slots of the four records say which values represent a snapshot, without any reader: `name`,
`id`, `origin`, `target` and `components` have to be given, and the other slots have fallbacks. The
formats read exactly these values (`read_exact`); what is written is one of them.
-/

namespace Coupling

open Json (Describes Exact IsBool IsList IsText Slot Reads Represents Value)

namespace Element

def slots : List (Slot Element) :=
  [⟨"name", String, Element.name, none, IsText⟩,
    ⟨"visible", Bool, Element.isVisible, some false, IsBool⟩,
    ⟨"abstract", Bool, Element.isAbstract, some false, IsBool⟩]

theorem described : Describes Element.format slots where
  distinct := by decide
  ext := by
    rintro ⟨⟩ ⟨⟩ same
    simpa [slots] using same
  initial := by simp [slots, Element.format]
  fields :=
    .cons (Reads.of Json.exact_readText rfl (fun _ _ => rfl) (by simp [slots])) <|
    .cons (Reads.of Json.exact_readBool rfl (fun _ _ => rfl) (by simp [slots])) <|
    .cons (Reads.of Json.exact_readBool rfl (fun _ _ => rfl) (by simp [slots])) .nil

theorem represents_toJson (x : Element) : Represents slots x.toJson x := by
  apply Json.represents_of_names described.distinct rfl
  simp [slots, Slot.ShownBy, IsText, IsBool]

end Element

namespace ComponentRecord

def slots : List (Slot ComponentRecord) :=
  [⟨"id", String, ComponentRecord.id, none, IsText⟩,
    ⟨"elements", List Element, ComponentRecord.elements, some [],
      IsList (Represents Element.slots)⟩]

theorem described : Describes ComponentRecord.format slots where
  distinct := by decide
  ext := by
    rintro ⟨⟩ ⟨⟩ same
    simpa [slots] using same
  initial := by simp [slots, ComponentRecord.format]
  fields :=
    .cons (Reads.of Json.exact_readText rfl (fun _ _ => rfl) (by simp [slots])) <|
    .cons (Reads.of Element.described.exact_read.readList rfl (fun _ _ => rfl)
      (by simp [slots])) .nil

theorem represents_toJson (c : ComponentRecord) : Represents slots c.toJson c := by
  apply Json.represents_of_names described.distinct rfl
  simp [slots, Slot.ShownBy, IsText, Json.isList_map Element.represents_toJson]

end ComponentRecord

namespace Dependency

def slots : List (Slot Dependency) :=
  [⟨"origin", String, Dependency.origin, none, IsText⟩,
    ⟨"target", String, Dependency.target, none, IsText⟩,
    ⟨"description", String, Dependency.description, some "", IsText⟩]

theorem described : Describes Dependency.format slots where
  distinct := by decide
  ext := by
    rintro ⟨⟩ ⟨⟩ same
    simpa [slots] using same
  initial := by simp [slots, Dependency.format]
  fields :=
    .cons (Reads.of Json.exact_readText rfl (fun _ _ => rfl) (by simp [slots])) <|
    .cons (Reads.of Json.exact_readText rfl (fun _ _ => rfl) (by simp [slots])) <|
    .cons (Reads.of Json.exact_readText rfl (fun _ _ => rfl) (by simp [slots])) .nil

theorem represents_toJson (d : Dependency) : Represents slots d.toJson d := by
  apply Json.represents_of_names described.distinct rfl
  simp [slots, Slot.ShownBy, IsText]

end Dependency

namespace Snapshot

def slots : List (Slot Snapshot) :=
  [⟨"components", List ComponentRecord, Snapshot.components, none,
      IsList (Represents ComponentRecord.slots)⟩,
    ⟨"dependencies", List Dependency, Snapshot.dependencies, some [],
      IsList (Represents Dependency.slots)⟩]

theorem described : Describes Snapshot.format slots where
  distinct := by decide
  ext := by
    rintro ⟨⟩ ⟨⟩ same
    simpa [slots] using same
  initial := by simp [slots, Snapshot.format]
  fields :=
    .cons (Reads.of ComponentRecord.described.exact_read.readList rfl (fun _ _ => rfl)
      (by simp [slots])) <|
    .cons (Reads.of Dependency.described.exact_read.readList rfl (fun _ _ => rfl)
      (by simp [slots])) .nil

theorem represents_toJson (s : Snapshot) : Represents slots s.toJson s := by
  apply Json.represents_of_names described.distinct rfl
  simp [slots, Slot.ShownBy, Json.isList_map ComponentRecord.represents_toJson,
    Json.isList_map Dependency.represents_toJson]

/-- A value is read as the snapshot that it represents and refused if it represents none. What is
written for a snapshot is read as that snapshot. -/
theorem read_exact :
    (∀ v s, Snapshot.read v = .ok s ↔ Represents slots v s) ∧
    (∀ v, (∃ fault, Snapshot.read v = .error fault) ↔ ∀ s, ¬ Represents slots v s) ∧
    ∀ s : Snapshot, Snapshot.read s.toJson = .ok s := by
  have exact : Exact Snapshot.read (Represents slots) := described.exact_read
  refine ⟨exact, fun v => ?_, fun s => (exact _ s).mpr s.represents_toJson⟩
  simp only [← exact v]
  cases Snapshot.read v with
  | error fault => simp
  | ok s => simp

example : Snapshot.read (.array [.array [.array [.text "app"]]]) = .ok ⟨[⟨"app", []⟩], []⟩ := rfl

end Snapshot

end Coupling
