import Coupling.Graph.Fingerprint
import Coupling.Proofs.Graph.Redrawing

/-!
# What the stream of a graph tells

The stream is two lists, each behind its length: the labels of the nodes, which carry their own
lengths, and the endpoints of the edges. Codes of this kind end where they say (`Delimited`), so a
label cannot be taken for the length of the next one nor the nodes for edges, whatever the labels
contain. As long as the numbers fit in eight bytes, the stream tells labels and endpoints and
nothing else (`stream_eq_iff`).
-/

namespace Coupling

/-! ## Codes that end where they say -/

/-- The codes of two values that fit are told apart, and from whatever comes after them. -/
def Delimited {α : Type} (code : α → List UInt8) (fits : α → Prop) : Prop :=
  ∀ a b rest rest', fits a → fits b → code a ++ rest = code b ++ rest' → a = b ∧ rest = rest'

@[simp] theorem length_littleEndian (n : Nat) : (littleEndian n).length = 8 := by
  simp [littleEndian]

/-- Two numbers of at most `k` bytes are equal if their bytes are. -/
theorem eq_of_bytes (k : Nat) {n m : Nat} (hn : n >>> (8 * k) = 0) (hm : m >>> (8 * k) = 0)
    (byte : ∀ i < k, (n >>> (8 * i)) % 256 = (m >>> (8 * i)) % 256) : n = m := by
  induction k generalizing n m with
  | zero => exact hn.trans hm.symm
  | succ k ih =>
    have later : ∀ x i : Nat, (x >>> 8) >>> (8 * i) = x >>> (8 * (i + 1)) := by
      intro x i
      rw [← Nat.shiftRight_add, Nat.mul_succ, Nat.add_comm]
    have high : n >>> 8 = m >>> 8 := by
      apply ih
      · rw [later, hn]
      · rw [later, hm]
      · intro i hi
        rw [later, later]
        exact byte (i + 1) (by omega)
    have low : n % 256 = m % 256 := byte 0 (by omega)
    omega

theorem littleEndian_injective {n m : Nat} (hn : n < UInt64.size) (hm : m < UInt64.size)
    (same : littleEndian n = littleEndian m) : n = m := by
  have bound : UInt64.size = 18446744073709551616 := rfl
  apply eq_of_bytes 8
  · show n >>> 64 = 0
    omega
  · show m >>> 64 = 0
    omega
  · intro i hi
    have at_i := congrArg (fun l => (l[i]?).map UInt8.toNat) same
    simpa [littleEndian, List.getElem?_range hi] using at_i

theorem Delimited.littleEndian : Delimited littleEndian (· < UInt64.size) := by
  intro n m rest rest' hn hm same
  obtain ⟨number, rest_eq⟩ := List.append_inj same (by simp)
  exact ⟨littleEndian_injective hn hm number, rest_eq⟩

theorem Delimited.labelBytes : Delimited labelBytes (·.utf8ByteSize < UInt64.size) := by
  intro a b rest rest' ha hb same
  have size : ∀ label : String, label.toUTF8.data.toList.length = label.utf8ByteSize := by
    intro label
    exact String.size_toByteArray
  simp only [Coupling.labelBytes, List.append_assoc, size] at same
  obtain ⟨lengths, same⟩ := Delimited.littleEndian _ _ _ _ ha hb same
  obtain ⟨bytes, rest_eq⟩ := List.append_inj same (by rw [size, size, lengths])
  have texts : a.toUTF8 = b.toUTF8 := ByteArray.ext (Array.ext' bytes)
  exact ⟨String.toByteArray_inj.mp texts, rest_eq⟩

def pairBytes (pair : Nat × Nat) : List UInt8 := littleEndian pair.1 ++ littleEndian pair.2

theorem Delimited.pairBytes :
    Delimited pairBytes fun pair => pair.1 < UInt64.size ∧ pair.2 < UInt64.size := by
  intro a b rest rest' ha hb same
  simp only [Coupling.pairBytes, List.append_assoc] at same
  obtain ⟨first, same⟩ := Delimited.littleEndian _ _ _ _ ha.1 hb.1 same
  obtain ⟨second, rest_eq⟩ := Delimited.littleEndian _ _ _ _ ha.2 hb.2 same
  exact ⟨Prod.ext first second, rest_eq⟩

/-- A list behind its length. -/
def listBytes {α : Type} (code : α → List UInt8) (l : List α) : List UInt8 :=
  littleEndian l.length ++ l.flatMap code

theorem Delimited.flatMap {α : Type} {code : α → List UInt8} {fits : α → Prop}
    (delimited : Delimited code fits) {l l' : List α} {rest rest' : List UInt8}
    (length : l.length = l'.length) (hl : ∀ a ∈ l, fits a) (hl' : ∀ a ∈ l', fits a)
    (same : l.flatMap code ++ rest = l'.flatMap code ++ rest') : l = l' ∧ rest = rest' := by
  induction l generalizing l' with
  | nil =>
    have empty : l' = [] := List.eq_nil_of_length_eq_zero length.symm
    subst empty
    exact ⟨rfl, same⟩
  | cons a l ih =>
    cases l' with
    | nil => cases length
    | cons b l' =>
      simp only [List.flatMap_cons, List.append_assoc] at same
      obtain ⟨head, same⟩ :=
        delimited a b _ _ (hl a List.mem_cons_self) (hl' b List.mem_cons_self) same
      obtain ⟨tail, rest_eq⟩ := ih (Nat.succ.inj length)
        (fun x hx => hl x (List.mem_cons_of_mem _ hx))
        (fun x hx => hl' x (List.mem_cons_of_mem _ hx)) same
      exact ⟨by rw [head, tail], rest_eq⟩

theorem Delimited.listBytes {α : Type} {code : α → List UInt8} {fits : α → Prop}
    (delimited : Delimited code fits) :
    Delimited (listBytes code) fun l => l.length < UInt64.size ∧ ∀ a ∈ l, fits a := by
  intro l l' rest rest' hl hl' same
  simp only [Coupling.listBytes, List.append_assoc] at same
  obtain ⟨length, same⟩ := Delimited.littleEndian _ _ _ _ hl.1 hl'.1 same
  exact delimited.flatMap length hl.2 hl'.2 same

/-! ## Labels and endpoints -/

namespace Graph

variable {ν δ ν' δ' : Type} [Label ν] [Label ν']

def labels (g : Graph ν δ) : List String := g.nodes.toList.map Label.text

omit [Label ν] in
/-- The endpoints of every edge, by their positions among the nodes. -/
def endpoints (g : Graph ν δ) : List (Nat × Nat) :=
  g.edges.toList.map fun e => (e.source.val, e.target.val)

omit [Label ν] in
theorem endpoints_eq (g : Graph ν δ) :
    g.endpoints = (List.finRange g.edgeCount).map fun e =>
      (g.edges[e].source.val, g.edges[e].target.val) := by
  apply List.ext_getElem
  · simp [endpoints]
  · intro i _ _
    simp [endpoints]

omit [Label ν] in
theorem mem_endpoints {g : Graph ν δ} {u w : Nat} :
    (u, w) ∈ g.endpoints ↔ ∃ x y : Fin g.size, x.val = u ∧ y.val = w ∧ g.Arc x y := by
  simp only [endpoints_eq, List.mem_map, List.mem_finRange, true_and, Prod.mk.injEq]
  constructor
  · intro h
    obtain ⟨e, source, target⟩ := h
    exact ⟨_, _, source, target, e, rfl, rfl⟩
  · intro h
    obtain ⟨x, y, rfl, rfl, e, rfl, rfl⟩ := h
    exact ⟨e, rfl, rfl⟩

omit [Label ν] in
/-- Endpoints are the places of the names of edges among the nodes. -/
theorem endpoints_eq_idxOf [DecidableEq ν] (g : Graph ν δ) :
    g.endpoints = ((g.edges.toList.map g.listed).map ends).map fun edge =>
      (g.nodes.toList.idxOf edge.1, g.nodes.toList.idxOf edge.2) := by
  have place : ∀ v : Fin g.size, g.nodes.toList.idxOf (g.node v) = v.val := by
    intro v
    have at_v := g.nodup.idxOf_getElem v.val (by simp)
    simpa [node] using at_v
  rw [endpoints, List.map_map, List.map_map]
  apply List.map_congr_left
  intro e _
  simp only [Function.comp_apply, ends, listed, place]

/-- All numbers in the stream fit in eight bytes. The positions of endpoints are below the number of
nodes. -/
structure Fits (g : Graph ν δ) : Prop where
  size : g.size < UInt64.size
  edgeCount : g.edgeCount < UInt64.size
  labels : ∀ label ∈ g.labels, label.utf8ByteSize < UInt64.size

theorem stream_eq (g : Graph ν δ) :
    g.stream = listBytes labelBytes g.labels ++ listBytes pairBytes g.endpoints := by
  have edges : (List.finRange g.edgeCount).flatMap g.edgeBytes = g.endpoints.flatMap pairBytes := by
    rw [endpoints_eq, List.flatMap_map]
    rfl
  rw [stream, edges]
  simp [listBytes, labels, endpoints, List.flatMap_map]

/-- Descriptors do not matter. -/
theorem stream_eq_of_ends [DecidableEq ν] {g : Graph ν δ} {g' : Graph ν δ'}
    (nodes : g.nodes.toList = g'.nodes.toList)
    (edges : (g.edges.toList.map g.listed).map ends = (g'.edges.toList.map g'.listed).map ends) :
    g.stream = g'.stream := by
  rw [stream_eq, stream_eq, labels, labels, endpoints_eq_idxOf, endpoints_eq_idxOf, nodes, edges]

theorem Fits.endpoints {g : Graph ν δ} (h : g.Fits) :
    ∀ pair ∈ g.endpoints, pair.1 < UInt64.size ∧ pair.2 < UInt64.size := by
  intro pair mem
  obtain ⟨e, _, rfl⟩ := List.mem_map.mp mem
  exact ⟨Nat.lt_trans e.source.isLt h.size, Nat.lt_trans e.target.isLt h.size⟩

theorem stream_eq_iff {g : Graph ν δ} {g' : Graph ν' δ'} (h : g.Fits) (h' : g'.Fits) :
    g.stream = g'.stream ↔ g.labels = g'.labels ∧ g.endpoints = g'.endpoints := by
  rw [stream_eq, stream_eq]
  constructor
  · intro same
    obtain ⟨labels, same⟩ := Delimited.labelBytes.listBytes _ _ _ _
      ⟨by simpa [Graph.labels] using h.size, h.labels⟩
      ⟨by simpa [Graph.labels] using h'.size, h'.labels⟩ same
    obtain ⟨endpoints, _⟩ := Delimited.pairBytes.listBytes _ _ [] []
      ⟨by simpa [Graph.endpoints] using h.edgeCount, h.endpoints⟩
      ⟨by simpa [Graph.endpoints] using h'.edgeCount, h'.endpoints⟩ (by rw [same])
    exact ⟨labels, endpoints⟩
  · intro h
    rw [h.1, h.2]

end Graph

end Coupling
