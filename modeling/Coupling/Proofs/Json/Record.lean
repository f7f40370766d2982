import Coupling.Collection.Passes
import Coupling.Json.Record
import Mathlib.Data.List.Duplicate
import Mathlib.Data.List.Forall2
import Mathlib.Data.List.Nodup

/-!
# Which values stand for which records

A record is made of slots: named contents, which may have fallbacks and which values of some kind
represent. `Represents` says from this alone which values stand for a record, objects by the names
of their members and arrays by the places of their items. A format with a field for each slot reads
exactly these values (`exact_read`).

Members are read by name and items by place. Both put one content after the other into a record,
into no slot twice, and what a single step means is the same for both (`overwrites_iff`).
-/

namespace Coupling.Json

variable {α ρ : Type}

/-- `read` accepts the values that represent something, and returns what they represent. -/
def Exact (read : Reader α) (represents : Value → α → Prop) : Prop :=
  ∀ v a, read v = .ok a ↔ represents v a

/-! ## Texts, booleans and lists -/

def IsText (v : Value) (s : String) : Prop := v = .text s

def IsBool (v : Value) (b : Bool) : Prop := v = .bool b

def IsList (represents : Value → α → Prop) (v : Value) (l : List α) : Prop :=
  ∃ items, v = .array items ∧ List.Forall₂ represents items l

theorem misshapen_ne_ok {expected : Shape} {v : Value} {a : α} : misshapen expected v ≠ .ok a := by
  cases v <;> simp [misshapen]

theorem exact_readText : Exact readText IsText := by
  intro v s
  cases v <;> simp [readText, IsText, misshapen_ne_ok]

theorem exact_readBool : Exact readBool IsBool := by
  intro v b
  cases v <;> simp [readBool, IsBool, misshapen_ne_ok]

theorem Exact.mapM {read : Reader α} {represents : Value → α → Prop} (exact : Exact read represents)
    {items : List Value} {l : List α} :
    items.mapM read = .ok l ↔ List.Forall₂ represents items l := by
  induction items generalizing l with
  | nil => simp [pure, Except.pure, eq_comm]
  | cons v items ih =>
    simp only [mapM_cons_eq_ok, List.forall₂_cons_left_iff, ih, exact v]
    constructor
    · rintro ⟨a, ha, rest, hr, rfl⟩
      exact ⟨a, rest, ha, hr, rfl⟩
    · rintro ⟨a, rest, ha, hr, rfl⟩
      exact ⟨a, ha, rest, hr, rfl⟩

theorem Exact.readList {read : Reader α} {represents : Value → α → Prop}
    (exact : Exact read represents) : Exact (readList read) (IsList represents) := by
  intro v l
  cases v <;> simp [Json.readList, IsList, misshapen_ne_ok, exact.mapM]

theorem isList_map {represents : Value → α → Prop} {write : α → Value}
    (each : ∀ a, represents (write a) a) (l : List α) :
    IsList represents (.array (l.map write)) l := by
  refine ⟨l.map write, rfl, ?_⟩
  rw [List.forall₂_map_left_iff, List.forall₂_same]
  exact fun a _ => each a

/-! ## Records -/

/-- A field as a value shows it. A slot without a fallback has to be given. -/
structure Slot (ρ : Type) where
  name : String
  Content : Type
  content : ρ → Content
  fallback : Option Content
  represents : Value → Content → Prop

namespace Slot

/-- The value stands for what the record has in this slot. -/
def ShownBy (p : Slot ρ) (r : ρ) (v : Value) : Prop := p.represents v (p.content r)

def Omissible (p : Slot ρ) (r : ρ) : Prop := p.fallback = some (p.content r)

end Slot

variable {slots ps : List (Slot ρ)} {gives : Slot ρ → Value → Prop} {r s t : ρ}

/-- The record has in its slots what is given for them, and the fallback where nothing is given. -/
structure Conveys (slots : List (Slot ρ)) (gives : Slot ρ → Value → Prop) (r : ρ) : Prop where
  shown : ∀ p ∈ slots, ∀ v, gives p v → p.ShownBy r v
  omissible : ∀ p ∈ slots, (∀ v, ¬ gives p v) → p.Omissible r

/-- No slot is named twice, every member has a name, and those that name no slot can be skipped.
The latter two hold of every object of well-formed JSON (`regular_iff_of_whole`). -/
structure Regular (slots : List (Slot ρ)) (members : List (Option String × Value)) : Prop where
  once : ∀ p ∈ slots, ¬ List.Duplicate (some p.name) (members.map Prod.fst)
  named : ∀ m ∈ members, m.1 ≠ none
  skippable : ∀ name v, (some name, v) ∈ members → (∀ p ∈ slots, p.name ≠ name) → v.isWhole = true

/-- What represents a record: an object that gives slots by name, or an array that gives the first
ones in order. Slots that are not given have their fallbacks. -/
inductive Represents (slots : List (Slot ρ)) : Value → ρ → Prop where
  | object {members : List (Option String × Value)} {r : ρ} (regular : Regular slots members)
      (conveyed : Conveys slots (fun p v => (some p.name, v) ∈ members) r) :
      Represents slots (.object members) r
  | array {items : List Value} {r : ρ} (fits : items.length ≤ slots.length)
      (conveyed : Conveys slots (fun p v => (p, v) ∈ slots.zip items) r) :
      Represents slots (.array items) r

theorem membersAreWhole_iff {members : List (Option String × Value)} :
    Value.membersAreWhole members = true ↔ ∀ m ∈ members, m.2.isWhole = true := by
  induction members with
  | nil => simp [Value.membersAreWhole]
  | cons m members ih => simp [Value.membersAreWhole, ih]

/-- Where no text breaks off and every member has a name, members are regular if no slot is named
twice, whatever else there is among them. -/
theorem regular_iff_of_whole {members : List (Option String × Value)}
    (whole : (Value.object members).isWhole = true) (named : ∀ m ∈ members, m.1 ≠ none) :
    Regular slots members ↔
      ∀ p ∈ slots, ¬ List.Duplicate (some p.name) (members.map Prod.fst) := by
  constructor
  · exact Regular.once
  · intro once
    rw [Value.isWhole, membersAreWhole_iff] at whole
    exact ⟨once, named, fun name v hv _ => whole _ hv⟩

theorem represents_object_iff {members : List (Option String × Value)} :
    Represents slots (.object members) r ↔
      Regular slots members ∧ Conveys slots (fun p v => (some p.name, v) ∈ members) r := by
  constructor
  · intro represents
    cases represents with
    | object regular conveyed => exact ⟨regular, conveyed⟩
  · rintro ⟨regular, conveyed⟩
    exact .object regular conveyed

theorem represents_array_iff {items : List Value} :
    Represents slots (.array items) r ↔
      items.length ≤ slots.length ∧ Conveys slots (fun p v => (p, v) ∈ slots.zip items) r := by
  constructor
  · intro represents
    cases represents with
    | array fits conveyed => exact ⟨fits, conveyed⟩
  · rintro ⟨fits, conveyed⟩
    exact .array fits conveyed

/-- The field reads the values that show the slot, and changes that slot of a record alone. -/
structure Reads (slots : List (Slot ρ)) (f : Field ρ) (p : Slot ρ) : Prop where
  name : f.name = p.name
  required : f.required = true ↔ p.fallback = none
  sound : ∀ {r s v}, f.read r v = .ok s →
    p.ShownBy s v ∧ ∀ q ∈ slots, q.name ≠ p.name → q.content s = q.content r
  complete : ∀ {r s v}, p.ShownBy s v → ∃ t, f.read r v = .ok t ∧ p.content t = p.content s

theorem Reads.of {read : Reader α} {represents : Value → α → Prop} (exact : Exact read represents)
    {name : String} {required : Bool} {set : ρ → α → ρ} {content : ρ → α} {fallback : Option α}
    (optional : required = fallback.isNone) (own : ∀ r a, content (set r a) = a)
    (others : ∀ q ∈ slots, q.name ≠ name → ∀ r a, q.content (set r a) = q.content r) :
    Reads slots (Field.of name required read set) ⟨name, α, content, fallback, represents⟩ where
  name := rfl
  required := by simp [Field.of, optional]
  sound := by
    intro r s v result
    obtain ⟨a, ha, rfl⟩ := map_eq_ok.mp result
    refine ⟨?_, fun q hq other => others q hq other r a⟩
    have shown : represents v a := (exact v a).mp ha
    simpa only [Slot.ShownBy, own] using shown
  complete := by
    intro r s v shown
    have accepted : read v = .ok (content s) := (exact v _).mpr shown
    exact ⟨set r (content s), map_eq_ok.mpr ⟨_, accepted, rfl⟩, own r _⟩

/-- The format has a field for each slot, and a record is nothing but its slots. -/
structure Describes (format : RecordFormat ρ) (slots : List (Slot ρ)) : Prop where
  distinct : (slots.map Slot.name).Nodup
  ext : ∀ r s, (∀ p ∈ slots, p.content r = p.content s) → r = s
  initial : ∀ p ∈ slots, ∀ a, p.fallback = some a → p.content format.initial = a
  fields : List.Forall₂ (Reads slots) format.fields slots

/-! ## One step -/

/-- `s` has what is given for its slots, and what `r` has elsewhere. -/
structure Overwrites (slots : List (Slot ρ)) (gives : Slot ρ → Value → Prop) (r s : ρ) : Prop where
  shown : ∀ p ∈ slots, ∀ v, gives p v → p.ShownBy s v
  kept : ∀ p ∈ slots, (∀ v, ¬ gives p v) → p.content s = p.content r

theorem overwrites_congr {gives' : Slot ρ → Value → Prop}
    (same : ∀ p ∈ slots, ∀ v, gives p v ↔ gives' p v) :
    Overwrites slots gives r s ↔ Overwrites slots gives' r s := by
  constructor
  · rintro ⟨shown, kept⟩
    exact ⟨fun p hp v given => shown p hp v ((same p hp v).mpr given),
      fun p hp absent => kept p hp fun v given => absent v ((same p hp v).mp given)⟩
  · rintro ⟨shown, kept⟩
    exact ⟨fun p hp v given => shown p hp v ((same p hp v).mp given),
      fun p hp absent => kept p hp fun v given => absent v ((same p hp v).mpr given)⟩

namespace Describes

variable {format : RecordFormat ρ}

theorem eq_of_name (D : Describes format slots) {p q : Slot ρ} (hp : p ∈ slots) (hq : q ∈ slots)
    (same : p.name = q.name) : p = q :=
  List.inj_on_of_nodup_map D.distinct hp hq same

theorem overwrites_nothing_iff (D : Describes format slots)
    (nothing : ∀ p ∈ slots, ∀ v, ¬ gives p v) :
    Overwrites slots gives r s ↔ r = s := by
  constructor
  · intro overwrites
    exact (D.ext s r fun p hp => overwrites.kept p hp (nothing p hp)).symm
  · rintro rfl
    exact ⟨fun p hp v given => absurd given (nothing p hp v), fun _ _ _ => rfl⟩

/-- One step, followed by others that leave its slot alone. -/
theorem overwrites_iff (D : Describes format slots) {f : Field ρ} {p : Slot ρ}
    (reads : Reads slots f p) (hp : p ∈ slots) {v : Value} (fresh : ∀ w, ¬ gives p w) :
    (∃ t, f.read r v = .ok t ∧ Overwrites slots gives t s) ↔
      Overwrites slots (fun q w => (q = p ∧ w = v) ∨ gives q w) r s := by
  constructor
  · rintro ⟨t, ht, overwrites⟩
    obtain ⟨shown, others⟩ := reads.sound ht
    constructor
    · rintro q hq w (⟨rfl, rfl⟩ | given)
      · have kept := overwrites.kept q hq fresh
        simpa only [Slot.ShownBy, kept] using shown
      · exact overwrites.shown q hq w given
    · intro q hq absent
      have other : q.name ≠ p.name := by
        intro same
        exact absent v (Or.inl ⟨D.eq_of_name hq hp same, rfl⟩)
      rw [overwrites.kept q hq fun w given => absent w (Or.inr given), others q hq other]
  · intro overwrites
    obtain ⟨t, ht, content⟩ := reads.complete (r := r) (overwrites.shown p hp v (Or.inl ⟨rfl, rfl⟩))
    refine ⟨t, ht, fun q hq w given => overwrites.shown q hq w (Or.inr given), ?_⟩
    intro q hq absent
    by_cases same : q = p
    · rw [same, content]
    · have other : q.name ≠ p.name := fun names => same (D.eq_of_name hq hp names)
      rw [(reads.sound ht).2 q hq other]
      apply overwrites.kept q hq
      rintro w (⟨this, -⟩ | given)
      · exact same this
      · exact absent w given

/-- A record is conveyed if it overwrites the initial one and nothing required is left out. -/
theorem conveys_iff (D : Describes format slots) :
    Conveys slots gives s ↔ Overwrites slots gives format.initial s ∧
      ∀ p ∈ slots, p.fallback = none → ∃ v, gives p v := by
  constructor
  · intro conveyed
    refine ⟨⟨conveyed.shown, fun p hp absent => ?_⟩, fun p hp required => ?_⟩
    · exact (D.initial p hp _ (conveyed.omissible p hp absent)).symm
    · by_contra absent
      have omissible := conveyed.omissible p hp (not_exists.mp absent)
      rw [Slot.Omissible, required] at omissible
      cases omissible
  · rintro ⟨overwrites, given⟩
    refine ⟨overwrites.shown, fun p hp absent => ?_⟩
    cases fallback : p.fallback with
    | none =>
      obtain ⟨v, hv⟩ := given p hp fallback
      exact absurd hv (absent v)
    | some a =>
      have kept := overwrites.kept p hp absent
      rw [Slot.Omissible, fallback, kept, D.initial p hp a fallback]

end Describes

/-! ## Members -/

variable {format : RecordFormat ρ} {members : List (Option String × Value)} {name : String}
  {v : Value}

theorem exists_given_iff : (∃ v, (some name, v) ∈ members) ↔ some name ∈ members.map Prod.fst := by
  simp

theorem find?_cases {fields : List (Field ρ)} (pairs : List.Forall₂ (Reads slots) fields ps)
    (name : String) :
    (∃ f p, fields.find? (·.name = name) = some f ∧ p ∈ ps ∧ p.name = name ∧
        Reads slots f p) ∨
      (fields.find? (·.name = name) = none ∧ ∀ p ∈ ps, p.name ≠ name) := by
  induction pairs with
  | nil => simp
  | @cons f p fields ps reads _ ih =>
    by_cases here : p.name = name
    · have found : f.name = name := reads.name.trans here
      exact Or.inl ⟨f, p, by simp [found], List.mem_cons_self, here, reads⟩
    · have other : f.name ≠ name := fun this => here (reads.name.symm.trans this)
      rcases ih with ⟨g, q, found, hq, named, reads'⟩ | ⟨missing, unknown⟩
      · exact Or.inl ⟨g, q, by simpa [other] using found, List.mem_cons_of_mem _ hq, named, reads'⟩
      · exact Or.inr ⟨by simpa [other] using missing, by simpa [here] using unknown⟩

theorem find?_required_eq_none_iff {fields : List (Field ρ)}
    (pairs : List.Forall₂ (Reads slots) fields ps) (seen : List String) :
    (fields.find? fun field => field.required && field.name ∉ seen) = none ↔
      ∀ p ∈ ps, p.fallback = none → p.name ∈ seen := by
  rw [List.find?_eq_none]
  induction pairs with
  | nil => simp
  | @cons f p fields ps reads _ ih =>
    rw [List.forall_mem_cons, List.forall_mem_cons, ih, ← reads.required, ← reads.name]
    simp

/-- No member names a slot that has been seen before. -/
def Unseen (slots : List (Slot ρ)) (seen : List String) (members : List (Option String × Value)) :
    Prop :=
  ∀ p ∈ slots, p.name ∈ seen → some p.name ∉ members.map Prod.fst

theorem not_regular_nameless : ¬ Regular slots ((none, v) :: members) := by
  intro regular
  exact regular.named _ List.mem_cons_self rfl

theorem regular_cons_iff :
    Regular slots ((some name, v) :: members) ↔
      (∀ p ∈ slots, p.name = name → some name ∉ members.map Prod.fst) ∧
      ((∀ p ∈ slots, p.name ≠ name) → v.isWhole = true) ∧ Regular slots members := by
  constructor
  · intro regular
    refine ⟨?_, regular.skippable name v List.mem_cons_self, ?_, ?_, ?_⟩
    · rintro p hp rfl again
      exact regular.once p hp again.duplicate_cons_self
    · exact fun p hp twice => regular.once p hp (twice.duplicate_cons _)
    · exact fun m hm => regular.named m (List.mem_cons_of_mem _ hm)
    · exact fun other w hw => regular.skippable other w (List.mem_cons_of_mem _ hw)
  · rintro ⟨fresh, whole, regular⟩
    refine ⟨?_, ?_, ?_⟩
    · intro p hp twice
      rcases List.duplicate_cons_iff.mp twice with ⟨same, again⟩ | twice
      · cases same
        exact fresh p hp rfl again
      · exact regular.once p hp twice
    · intro m hm
      rcases List.mem_cons.mp hm with rfl | hm
      · simp
      · exact regular.named m hm
    · intro other w hw
      rcases List.mem_cons.mp hw with same | hw
      · cases same
        exact whole
      · exact regular.skippable other w hw

theorem regular_cons_known {p : Slot ρ} (hp : p ∈ slots) :
    Regular slots ((some p.name, v) :: members) ↔
      some p.name ∉ members.map Prod.fst ∧ Regular slots members := by
  rw [regular_cons_iff]
  constructor
  · rintro ⟨once, -, regular⟩
    exact ⟨once p hp rfl, regular⟩
  · rintro ⟨once, regular⟩
    exact ⟨fun _ _ _ => once, fun unknown => absurd rfl (unknown p hp), regular⟩

theorem regular_cons_unknown (unknown : ∀ p ∈ slots, p.name ≠ name) :
    Regular slots ((some name, v) :: members) ↔ v.isWhole = true ∧ Regular slots members := by
  rw [regular_cons_iff]
  constructor
  · rintro ⟨-, whole, regular⟩
    exact ⟨whole unknown, regular⟩
  · rintro ⟨whole, regular⟩
    exact ⟨fun p hp same => absurd same (unknown p hp), fun _ => whole, regular⟩

theorem unseen_cons_known {p : Slot ρ} (hp : p ∈ slots) {seen : List String} :
    p.name ∉ seen ∧ Unseen slots (p.name :: seen) members ↔
      some p.name ∉ members.map Prod.fst ∧ Unseen slots seen ((some p.name, v) :: members) := by
  simp only [Unseen, List.map_cons, List.mem_cons, not_or]
  constructor
  · rintro ⟨new, unseen⟩
    refine ⟨unseen p hp (Or.inl rfl), fun q hq old => ⟨?_, unseen q hq (Or.inr old)⟩⟩
    intro same
    rw [Option.some.inj same] at old
    exact new old
  · rintro ⟨once, unseen⟩
    refine ⟨fun old => (unseen p hp old).1 rfl, ?_⟩
    rintro q hq (same | old)
    · rwa [same]
    · exact (unseen q hq old).2

theorem unseen_cons_unknown (unknown : ∀ p ∈ slots, p.name ≠ name) {seen : List String} :
    Unseen slots seen ((some name, v) :: members) ↔ Unseen slots seen members := by
  constructor
  · exact fun unseen p hp old again => unseen p hp old (List.mem_cons_of_mem _ again)
  · intro unseen p hp old again
    rcases List.mem_cons.mp again with same | again
    · exact unknown p hp (Option.some.inj same)
    · exact unseen p hp old again

theorem gives_cons_unknown (unknown : ∀ p ∈ slots, p.name ≠ name) {p : Slot ρ} (hp : p ∈ slots)
    {w : Value} : (some p.name, w) ∈ (some name, v) :: members ↔ (some p.name, w) ∈ members := by
  simp [unknown p hp]

theorem readMembers_cons_known {f : Field ρ} {seen : List String} {result : ρ × List String}
    (found : format.fields.find? (·.name = name) = some f) :
    format.readMembers r seen ((some name, v) :: members) = .ok result ↔
      name ∉ seen ∧ ∃ t, f.read r v = .ok t ∧
        format.readMembers t (name :: seen) members = .ok result := by
  by_cases old : name ∈ seen
  · simp [RecordFormat.readMembers, found, old]
  · simp [RecordFormat.readMembers, found, old, bind_eq_ok]

theorem readMembers_cons_unknown {seen : List String} {result : ρ × List String}
    (missing : format.fields.find? (·.name = name) = none) :
    format.readMembers r seen ((some name, v) :: members) = .ok result ↔
      v.isWhole = true ∧ format.readMembers r seen members = .ok result := by
  by_cases whole : v.isWhole = true
  · simp [RecordFormat.readMembers, missing, whole]
  · simp [RecordFormat.readMembers, missing, whole]

namespace Describes

theorem gives_cons_iff (D : Describes format slots) {p q : Slot ρ} (hp : p ∈ slots) (hq : q ∈ slots)
    {w : Value} :
    (q = p ∧ w = v) ∨ (some q.name, w) ∈ members ↔
      (some q.name, w) ∈ (some p.name, v) :: members := by
  have names : q = p ↔ q.name = p.name := by
    constructor
    · rintro rfl
      rfl
    · exact D.eq_of_name hq hp
  simp [names]

/-- Members are read as they have to be, and none of a slot that has been seen before. -/
theorem readMembers_iff (D : Describes format slots) {seen : List String} :
    (∃ seen', format.readMembers r seen members = .ok (s, seen')) ↔
      Regular slots members ∧ Unseen slots seen members ∧
      Overwrites slots (fun p v => (some p.name, v) ∈ members) r s := by
  induction members generalizing r seen with
  | nil =>
    have regular : Regular slots [] := by constructor <;> simp
    rw [D.overwrites_nothing_iff (by simp)]
    simp [RecordFormat.readMembers, regular, Unseen]
  | cons m members ih =>
    obtain ⟨_ | name, v⟩ := m
    · simp [RecordFormat.readMembers, not_regular_nameless]
    rcases find?_cases D.fields name with ⟨f, p, found, hp, rfl, reads⟩ | ⟨missing, unknown⟩
    · rw [regular_cons_known hp]
      simp only [readMembers_cons_known found]
      constructor
      · rintro ⟨seen', new, t, ht, result⟩
        obtain ⟨regular, unseen, overwrites⟩ := ih.mp ⟨seen', result⟩
        obtain ⟨once, unseen⟩ := (unseen_cons_known hp).mp ⟨new, unseen⟩
        have fresh : ∀ w, (some p.name, w) ∉ members :=
          fun w given => once (List.mem_map_of_mem (f := Prod.fst) given)
        refine ⟨⟨once, regular⟩, unseen, ?_⟩
        rw [← overwrites_congr fun q hq w => D.gives_cons_iff hp hq]
        exact (D.overwrites_iff reads hp fresh).mp ⟨t, ht, overwrites⟩
      · rintro ⟨⟨once, regular⟩, unseen, overwrites⟩
        obtain ⟨new, unseen⟩ := (unseen_cons_known hp).mpr ⟨once, unseen⟩
        have fresh : ∀ w, (some p.name, w) ∉ members :=
          fun w given => once (List.mem_map_of_mem (f := Prod.fst) given)
        rw [← overwrites_congr fun q hq w => D.gives_cons_iff hp hq] at overwrites
        obtain ⟨t, ht, overwrites⟩ := (D.overwrites_iff reads hp fresh).mpr overwrites
        obtain ⟨seen', result⟩ := ih.mpr ⟨regular, unseen, overwrites⟩
        exact ⟨seen', new, t, ht, result⟩
    · rw [regular_cons_unknown unknown, unseen_cons_unknown unknown,
        overwrites_congr fun q hq w => gives_cons_unknown unknown hq]
      simp only [readMembers_cons_unknown missing, exists_and_left, ih, and_assoc]

theorem mem_seen_iff (D : Describes format slots) {seen seen' : List String} {p : Slot ρ}
    (hp : p ∈ slots) (result : format.readMembers r seen members = .ok (s, seen')) :
    p.name ∈ seen' ↔ p.name ∈ seen ∨ some p.name ∈ members.map Prod.fst := by
  induction members generalizing r seen with
  | nil =>
    cases result
    simp
  | cons m members ih =>
    obtain ⟨_ | name, v⟩ := m
    · cases result
    rcases find?_cases D.fields name with ⟨f, q, found, -, rfl, -⟩ | ⟨missing, unknown⟩
    · obtain ⟨-, t, -, result⟩ := (readMembers_cons_known found).mp result
      rw [ih result, List.map_cons, List.mem_cons, List.mem_cons, Option.some.injEq]
      tauto
    · obtain ⟨-, result⟩ := (readMembers_cons_unknown missing).mp result
      rw [ih result, List.map_cons, List.mem_cons, Option.some.injEq, or_iff_right (unknown p hp)]

theorem readObject_eq_ok (D : Describes format slots) :
    format.readObject members = .ok s ↔
      ∃ seen, format.readMembers format.initial [] members = .ok (s, seen) ∧
        ∀ p ∈ slots, p.fallback = none → p.name ∈ seen := by
  rw [RecordFormat.readObject]
  cases format.readMembers format.initial [] members with
  | error fault => simp [bind, Except.bind]
  | ok result =>
    obtain ⟨r, seen⟩ := result
    have complete := find?_required_eq_none_iff D.fields seen
    simp only [bind, Except.bind, pure, Except.pure, Except.ok.injEq, Prod.mk.injEq]
    split
    next field missing =>
      have incomplete : ¬ ∀ p ∈ slots, p.fallback = none → p.name ∈ seen := by
        rw [← complete, missing]
        simp
      simp only [reduceCtorEq, false_iff]
      rintro ⟨_, ⟨-, rfl⟩, all⟩
      exact incomplete all
    next none_missing =>
      rw [Except.ok.injEq]
      constructor
      · rintro rfl
        exact ⟨seen, ⟨rfl, rfl⟩, complete.mp none_missing⟩
      · rintro ⟨_, ⟨same, -⟩, -⟩
        exact same

theorem readObject_iff (D : Describes format slots) :
    format.readObject members = .ok s ↔ Represents slots (.object members) s := by
  rw [D.readObject_eq_ok, represents_object_iff, D.conveys_iff]
  have unseen : Unseen slots [] members := fun p hp old => absurd old List.not_mem_nil
  constructor
  · rintro ⟨seen, result, required⟩
    obtain ⟨regular, -, overwrites⟩ := D.readMembers_iff.mp ⟨seen, result⟩
    refine ⟨regular, overwrites, fun p hp needed => ?_⟩
    have given := (D.mem_seen_iff hp result).mp (required p hp needed)
    simpa using given
  · rintro ⟨regular, overwrites, required⟩
    obtain ⟨seen, result⟩ := D.readMembers_iff.mpr ⟨regular, unseen, overwrites⟩
    refine ⟨seen, result, fun p hp needed => ?_⟩
    obtain ⟨v, given⟩ := required p hp needed
    exact (D.mem_seen_iff hp result).mpr (Or.inr (List.mem_map_of_mem (f := Prod.fst) given))

/-! ## Items -/

theorem needed_cons_iff {p : Slot ρ} {items : List Value} (fresh : p ∉ ps) :
    (∀ q ∈ p :: ps, q.fallback = none → ∃ w, (q, w) ∈ (p :: ps).zip (v :: items)) ↔
      ∀ q ∈ ps, q.fallback = none → ∃ w, (q, w) ∈ ps.zip items := by
  rw [List.zip_cons_cons]
  constructor
  · intro needed q hq required
    obtain ⟨w, given⟩ := needed q (List.mem_cons_of_mem _ hq) required
    rcases List.mem_cons.mp given with same | given
    · cases same
      exact absurd hq fresh
    · exact ⟨w, given⟩
  · intro needed q hq required
    rcases List.mem_cons.mp hq with rfl | hq
    · exact ⟨v, List.mem_cons_self⟩
    · obtain ⟨w, given⟩ := needed q hq required
      exact ⟨w, List.mem_cons_of_mem _ given⟩

theorem readItems_iff (D : Describes format slots) {fields : List (Field ρ)}
    (pairs : List.Forall₂ (Reads slots) fields ps) (within : ∀ p ∈ ps, p ∈ slots) (nodup : ps.Nodup)
    {count : Nat} {items : List Value} :
    format.readItems count r fields items = .ok s ↔
      items.length ≤ ps.length ∧ (∀ p ∈ ps, p.fallback = none → ∃ v, (p, v) ∈ ps.zip items) ∧
      Overwrites slots (fun p v => (p, v) ∈ ps.zip items) r s := by
  induction pairs generalizing count items r with
  | nil =>
    cases items with
    | nil =>
      rw [D.overwrites_nothing_iff (by simp)]
      simp [RecordFormat.readItems]
    | cons v items => simp [RecordFormat.readItems]
  | @cons f p fields ps reads _ ih =>
    obtain ⟨fresh, nodup⟩ := List.nodup_cons.mp nodup
    have within' : ∀ q ∈ ps, q ∈ slots := fun q hq => within q (List.mem_cons_of_mem _ hq)
    cases items with
    | nil =>
      rw [RecordFormat.readItems]
      split
      next required =>
        have needed := reads.required.mp required
        simp [needed]
      next optional =>
        have unneeded := mt reads.required.mpr optional
        rw [ih within' nodup]
        simp [unneeded]
    | cons v items =>
      have unread : ∀ w, (p, w) ∉ ps.zip items := fun w given => fresh (List.of_mem_zip given).1
      have one_more : ∀ q ∈ slots, ∀ w, (q, w) ∈ (p :: ps).zip (v :: items) ↔
          (q = p ∧ w = v) ∨ (q, w) ∈ ps.zip items := by simp
      rw [RecordFormat.readItems, bind_eq_ok, needed_cons_iff fresh, overwrites_congr one_more,
        ← D.overwrites_iff reads (within p List.mem_cons_self) unread, List.length_cons,
        List.length_cons, Nat.add_le_add_iff_right]
      simp only [ih within' nodup]
      constructor
      · rintro ⟨t, ht, fits, needed, overwrites⟩
        exact ⟨fits, needed, t, ht, overwrites⟩
      · rintro ⟨fits, needed, t, ht, overwrites⟩
        exact ⟨t, ht, fits, needed, overwrites⟩

/-! ## Both forms -/

theorem exact_read (D : Describes format slots) : Exact format.read (Represents slots) := by
  intro v s
  cases v with
  | object members => exact D.readObject_iff
  | array items =>
    rw [RecordFormat.read, D.readItems_iff D.fields (fun _ => id) D.distinct.of_map,
      represents_array_iff, D.conveys_iff]
    tauto
  | null | bool | number | text | unreadable | broken =>
    constructor
    · intro result
      rw [RecordFormat.read] at result
      · exact absurd result misshapen_ne_ok
      · intros
        contradiction
      · intros
        contradiction
    · intro represents
      cases represents

end Describes

/-- An object with the slots in order represents the record that its values show. -/
theorem represents_of_names (distinct : (slots.map Slot.name).Nodup)
    (names : members.map Prod.fst = slots.map fun p => some p.name)
    (shown : ∀ p ∈ slots, ∀ v, (some p.name, v) ∈ members → p.ShownBy r v) :
    Represents slots (.object members) r := by
  have nodup : ((slots.map Slot.name).map some).Nodup := distinct.map fun _ _ => Option.some.inj
  rw [List.map_map, Function.comp_def, ← names] at nodup
  have named : ∀ m ∈ members, ∃ p ∈ slots, some p.name = m.1 := by
    intro m hm
    have listed : m.1 ∈ members.map Prod.fst := List.mem_map_of_mem hm
    rwa [names, List.mem_map] at listed
  refine .object ⟨?_, ?_, ?_⟩ ⟨shown, ?_⟩
  · exact fun p _ => List.nodup_iff_forall_not_duplicate.mp nodup _
  · intro m hm
    obtain ⟨p, -, name⟩ := named m hm
    simp [← name]
  · intro name v hv unknown
    obtain ⟨p, hp, same⟩ := named _ hv
    exact absurd (Option.some.inj same) (unknown p hp)
  · intro p hp absent
    have listed : some p.name ∈ members.map Prod.fst := by
      rw [names]
      exact List.mem_map_of_mem hp
    obtain ⟨v, given⟩ := exists_given_iff.mpr listed
    exact absurd given (absent v)

end Coupling.Json
