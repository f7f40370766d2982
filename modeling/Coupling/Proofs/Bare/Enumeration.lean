import Coupling.Proofs.Bare.Graph
import Coupling.Proofs.Bare.Search
import Coupling.Proofs.Cycle.Order

/-!
# Enumeration on bare arrays

The search of a component looks up in one array for the whole graph which place a node has among
the members. The array is filled before every component and emptied behind it, so that the next one
finds it as the first one did, whether or not the search was cut short (`enumerate_bare`).
-/

namespace Coupling

open Checked

variable {ν δ : Type} {n k : Nat}

namespace Checked

variable {α β γ σ : Type}

/-- Writes one entry after the other. -/
def storeAll (xs : Array α) (entries : List (Nat × α)) : Checked (Array α) :=
  entries.foldlM (fun xs entry => store xs entry.1 entry.2) xs

/-- Goes from part to part until one is cut short, and tells whether none is. -/
def gather (part : σ → β → Checked (σ × Bool)) (s : σ) : List β → Checked (σ × Bool)
  | [] => return (s, true)
  | b :: bs => do
    let (s, whole) ← part s b
    if whole then gather part s bs else return (s, false)

end Checked

namespace BareSearch

/-- Finds the circuits through `s` behind those found before. -/
noncomputable def circuitsFrom (rows back : Array (Array Nat)) (members : Array Nat) (cap : Nat)
    (found : Array (List Nat)) (s : Nat) : Checked (Array (List Nat) × Bool) := do
  let allowed ← regionOf rows back s
  let r : BareRegion := { rows, members, start := s, allowed }
  let search ← start r found
  loop (turn r cap) search

def addSource (back : Array (Array Nat)) (arc : Nat × Nat) : Checked (Array (Array Nat)) := do
  let sources ← fetch back arc.2
  store back arc.2 (sources.push arc.1)

def reverse (rows : Array (Array Nat)) : Checked (Array (Array Nat)) :=
  (rows.toList.zipIdx.flatMap fun row => row.1.toList.map fun w => (row.2, w)).foldlM addSource
    (Array.replicate rows.size #[])

end BareSearch

/-- What the search of one component leaves to that of the next. -/
structure BareLedger where
  places : Array (Option Nat)
  found : Array (List Nat)

namespace BareGraph

/-- The places of the successors that have one. -/
def rowOf (g : BareGraph ν δ) (places : Array (Option Nat)) (member : Nat) :
    Checked (Array Nat) := do
  let successors ← g.successors member
  let found ← successors.mapM (fetch places)
  return (found.filterMap id).toArray

def rowsOf (g : BareGraph ν δ) (places : Array (Option Nat)) (members : List Nat) :
    Checked (Array (Array Nat)) := do
  let rows ← members.mapM (g.rowOf places)
  return rows.toArray

/-- Besides, the circuits that the component adds are counted, which has no use here but may fail. -/
noncomputable def enumerate (g : BareGraph ν δ) (cap : Nat) (s : BareLedger) (scc : BareScc) :
    Checked (BareLedger × Bool) := do
  let places ← storeAll s.places (scc.members.zipIdx.map fun entry => (entry.1, some entry.2))
  let rows ← g.rowsOf places scc.members
  let back ← BareSearch.reverse rows
  let (found, whole) ←
    gather (BareSearch.circuitsFrom rows back scc.members.toArray cap) s.found
      (List.range scc.members.length)
  let _added ← sub found.size s.found.size
  let places ← storeAll places (scc.members.map fun member => (member, none))
  return ({ places, found }, whole)

/-- The circuits in the cyclic components, and whether there are no more. -/
noncomputable def circuits (g : BareGraph ν δ) (sccs : List BareScc) (cap : Nat) :
    Checked (Array (List Nat) × Bool) := do
  let begin : BareLedger := { places := Array.replicate g.nodes.size none, found := #[] }
  let (s, whole) ← gather (g.enumerate cap) begin (sccs.filter BareScc.cyclic)
  return (s.found, whole)

end BareGraph

/-! ## One part after the other -/

namespace Checked

variable {α β γ σ : Type} {cap : Nat}

/-- The circuits of a part behind those found before, and whether the part was not cut short. -/
def appended (view : Array (List Nat) → σ) (name : γ → List Nat) (found : Array (List Nat))
    (c : Capped γ) : σ × Bool :=
  (view (found ++ (c.items.map name).toArray), !c.truncated)

theorem gather_eq (view : Array (List Nat) → σ) (found : Array (List Nat))
    {part : σ → β → Checked (σ × Bool)} {key : α → β} {typed : α → Nat → Capped γ}
    {name : γ → List Nat} {l : List α}
    (bounded : ∀ a ∈ l, ∀ room, (typed a room).items.length ≤ room)
    (each : ∀ a ∈ l, ∀ found : Array (List Nat), found.size ≤ cap →
      part (view found) (key a) = pure (appended view name found (typed a (cap - found.size))))
    (le : found.size ≤ cap) :
    gather part (view found) (l.map key) =
      pure (appended view name found (Capped.gather typed l (cap - found.size))) := by
  induction l generalizing found with
  | nil => simp [gather, appended, Capped.gather]
  | cons a l ih =>
    have short := bounded a List.mem_cons_self (cap - found.size)
    have rest := fun found => ih found (fun b mem => bounded b (List.mem_cons_of_mem _ mem))
      (fun b mem => each b (List.mem_cons_of_mem _ mem))
    rw [List.map_cons, gather, each a List.mem_cons_self found le, pure_bind, Capped.gather]
    generalize typed a (cap - found.size) = here at short
    cases cut : here.truncated with
    | true => simp [appended, cut]
    | false =>
      have size : (found ++ (here.items.map name).toArray).size =
          found.size + here.items.length := by simp
      have room : cap - (found ++ (here.items.map name).toArray).size =
          cap - found.size - here.items.length := by omega
      have later := rest (found ++ (here.items.map name).toArray) (by omega)
      rw [room] at later
      simp only [appended, cut, Bool.not_false, if_true, Bool.false_eq_true, if_false]
      rw [later]
      simp [appended]

end Checked

theorem Checked.sub_size_append {α : Type} (found more : Array α) :
    sub (found ++ more).size found.size = pure more.size := by
  rw [Array.size_append, sub_eq (Nat.le_add_right ..), Nat.add_sub_cancel_left]

/-! ## Places of the members -/

section Places

variable {α : Type}

/-- The vector after its entries have been written one after the other. -/
def written (xs : Vector α n) (entries : List (Fin n × α)) : Vector α n :=
  entries.foldl (fun xs entry => xs.set entry.1 entry.2 entry.1.isLt) xs

theorem storeAll_vector (xs : Vector α n) (entries : List (Fin n × α)) :
    storeAll xs.toArray (entries.map fun entry => (entry.1.val, entry.2)) =
      pure (written xs entries).toArray :=
  foldlM_eq_pure Vector.toArray (fun xs entry => store_vector xs entry.1 entry.2) entries xs

theorem getElem_written_of_not_mem {xs : Vector α n} {entries : List (Fin n × α)} {v : Fin n}
    (off : v ∉ entries.map Prod.fst) : (written xs entries)[v] = xs[v] := by
  induction entries generalizing xs with
  | nil => rfl
  | cons entry entries ih =>
    rw [List.map_cons, List.mem_cons, not_or] at off
    rw [written, List.foldl_cons, ← written, ih off.2, Adjacency.getElem_set_fin,
      if_neg fun e => off.1 e.symm]

theorem getElem_written_of_mem {xs : Vector α n} {entries : List (Fin n × α)} {v : Fin n} {a : α}
    (nodup : (entries.map Prod.fst).Nodup) (mem : (v, a) ∈ entries) :
    (written xs entries)[v] = a := by
  induction entries generalizing xs with
  | nil => cases mem
  | cons entry entries ih =>
    obtain ⟨off, nodup⟩ := List.nodup_cons.mp nodup
    rw [written, List.foldl_cons, ← written]
    rcases List.mem_cons.mp mem with rfl | mem
    · rw [getElem_written_of_not_mem off, Adjacency.getElem_set_fin, if_pos rfl]
    · exact ih nodup mem

end Places

theorem zipIdx_map_finRange {α : Type} (f : Fin k → α) :
    ((List.finRange k).map f).zipIdx = (List.finRange k).map fun i => (f i, i.val) := by
  apply List.ext_getElem
  · simp
  · intro i _ _
    simp

namespace IndexedSet

variable (set : IndexedSet (Fin n))

/-- The place of each node among the members. -/
def places (set : IndexedSet (Fin n)) : Vector (Option Nat) n :=
  Vector.ofFn fun v => (set.position? v).map Fin.val

/-- The numbers of the members, in order. -/
def names (set : IndexedSet (Fin n)) : Vector Nat set.size :=
  Vector.ofFn fun i => (set.get i).val

theorem toList_eq_map_get : set.toList = (List.finRange set.size).map set.get := by
  apply List.ext_getElem
  · simp [toList]
  · intro i _ _
    simp [toList, get]

theorem toList_names : set.names.toList = set.toList.map Fin.val := by
  apply List.ext_getElem
  · simp [toList]
  · intro i _ _
    simp [names, toList, get]

theorem fill_places : storeAll (Array.replicate n none)
    ((set.toList.map Fin.val).zipIdx.map fun entry => (entry.1, some entry.2)) =
      pure set.places.toArray := by
  let entries : List (Fin n × Option Nat) :=
    (List.finRange set.size).map fun i => (set.get i, some i.val)
  have keys : entries.map Prod.fst = set.toList := by
    rw [toList_eq_map_get, List.map_map]
    rfl
  have filled : written (Vector.replicate n none) entries = set.places := by
    apply vector_ext
    intro v
    cases place : set.position? v with
    | none =>
      have off : v ∉ entries.map Prod.fst := by
        rw [keys]
        exact position?_eq_none_iff.mp place
      rw [getElem_written_of_not_mem off]
      simp [places, place]
    | some i =>
      have here : set.get i = v := position?_eq_some_iff.mp place
      have mem : (v, some i.val) ∈ entries :=
        List.mem_map.mpr ⟨i, List.mem_finRange i, by rw [here]⟩
      rw [getElem_written_of_mem (by rw [keys]; exact set.nodup_toList) mem]
      simp [places, place]
  have stored := storeAll_vector (Vector.replicate n none) entries
  rw [filled] at stored
  rw [toList_eq_map_get, List.map_map, zipIdx_map_finRange, List.map_map, ← stored, List.map_map]
  rfl

theorem empty_places : storeAll set.places.toArray
    ((set.toList.map Fin.val).map fun member => (member, none)) =
      pure (Array.replicate n none) := by
  let entries : List (Fin n × Option Nat) := set.toList.map fun v => (v, none)
  have keys : entries.map Prod.fst = set.toList := by
    rw [List.map_map]
    exact List.map_id _
  have emptied : written set.places entries = Vector.replicate n none := by
    apply vector_ext
    intro v
    by_cases mem : v ∈ set.toList
    · have entry : (v, none) ∈ entries := List.mem_map.mpr ⟨v, mem, rfl⟩
      rw [getElem_written_of_mem (by rw [keys]; exact set.nodup_toList) entry]
      simp
    · rw [getElem_written_of_not_mem (by rw [keys]; exact mem)]
      simp [places, position?_eq_none_iff.mpr mem]
  have stored := storeAll_vector set.places entries
  rw [emptied, List.map_map] at stored
  rw [List.map_map]
  exact stored

end IndexedSet

/-! ## The rows of a component -/

namespace Adjacency

/-- Adds the source of an arc to what leads to its target. -/
def addSource (back : Adjacency k) (arc : Fin k × Fin k) : Adjacency k :=
  back.set arc.2 (back[arc.2] ++ [arc.1]) arc.2.isLt

theorem addSource_bare (back : Adjacency k) (arc : Fin k × Fin k) :
    BareSearch.addSource back.bare (arc.1.val, arc.2.val) = pure (back.addSource arc).bare := by
  have stored := store_vector (back.map fun row => (row.map Fin.val).toArray) arc.2
    ((back[arc.2].map Fin.val).toArray.push arc.1.val)
  rw [BareSearch.addSource, fetch_bare, pure_bind]
  show store (back.map fun row => (row.map Fin.val).toArray).toArray arc.2.val _ = _
  rw [stored, bare, addSource, Vector.map_set]
  simp

theorem getElem_foldl_addSource (arcs : List (Fin k × Fin k)) (back : Adjacency k) (w : Fin k) :
    (arcs.foldl addSource back)[w] = back[w] ++ (arcs.filter (·.2 = w)).map Prod.fst := by
  induction arcs generalizing back with
  | nil => simp
  | cons arc arcs ih =>
    rw [List.foldl_cons, ih, addSource, getElem_set_fin]
    by_cases here : arc.2 = w
    · subst here
      simp
    · simp [here]

theorem reverse_bare (adj : Adjacency k) :
    BareSearch.reverse adj.bare = pure adj.transpose.bare := by
  let arcs : List (Fin k × Fin k) := (List.finRange k).flatMap fun v => adj[v].map fun w => (v, w)
  have listed : (adj.bare.toList.zipIdx.flatMap fun row => row.1.toList.map fun w => (row.2, w)) =
      arcs.map fun arc => (arc.1.val, arc.2.val) := by
    rw [← toArray_rows, List.toList_toArray, zipIdx_map_finRange, List.flatMap_map,
      List.map_flatMap]
    simp [Function.comp_def]
  have begin : Array.replicate k #[] = bare (Vector.replicate k ([] : List (Fin k))) := by
    simp [bare]
  have transposed : arcs.foldl addSource (Vector.replicate k []) = adj.transpose := by
    apply vector_ext
    intro w
    have sources := getElem_grouped Prod.snd arcs w
    rw [getElem_foldl_addSource, transpose]
    simp [arcs] at *
    rw [sources]
  have added := foldlM_eq_pure bare addSource_bare arcs (Vector.replicate k [])
  rw [BareSearch.reverse, listed, size_bare, begin, added, transposed]

end Adjacency

/-! ## One component -/

variable {found : Array (List Nat)} {cap : Nat}

theorem Capped.length_items_le {α : Type} {c : Capped α} {l : List α} (cut : c = .cut cap l) :
    c.items.length ≤ cap := by
  rw [cut, Capped.items_cut, List.length_take]
  omega

theorem Adjacency.circuitsFrom_bare (adj : Adjacency k) (names : Vector Nat k)
    (le : found.size ≤ cap) (s : Fin k) :
    BareSearch.circuitsFrom adj.bare adj.transpose.bare names.toArray cap found s.val =
      pure (appended id (List.map fun i => names[i]) found
        ((Region.ofStart adj adj.transpose s).circuits (cap - found.size))) := by
  rw [BareSearch.circuitsFrom, regionOf_bare, pure_bind]
  exact (Region.ofStart adj adj.transpose s).circuits_bare names found le

theorem Adjacency.gather_circuitsFrom (adj : Adjacency k) (names : Vector Nat k)
    (le : found.size ≤ cap) :
    gather (BareSearch.circuitsFrom adj.bare adj.transpose.bare names.toArray cap) found
        (List.range k) =
      pure (appended id (List.map fun i => names[i]) found (adj.circuits (cap - found.size))) := by
  rw [← List.map_coe_finRange_eq_range]
  apply gather_eq id found _ _ le
  · intro s _ room
    exact Capped.length_items_le (Region.circuits_eq_cut _ _)
  · intro s _ found le
    exact adj.circuitsFrom_bare names le s

namespace Graph

variable (g : Graph ν δ)

theorem rowOf_bare (set : IndexedSet (Fin g.size)) (i : Fin set.size) :
    g.bare.rowOf set.places.toArray (set.get i).val =
      pure ((g.adjacency.induced set)[i].map Fin.val).toArray := by
  have looked : ((g.successors (set.get i)).map Fin.val).mapM (fetch set.places.toArray) =
      pure ((g.successors (set.get i)).map fun w => (set.position? w).map Fin.val) := by
    rw [List.mapM_map]
    apply mapM_eq_pure
    intro w _
    show fetch set.places.toArray w.val = _
    rw [fetch_vector]
    simp [IndexedSet.places]
  have row : (g.adjacency.induced set)[i] = (g.successors (set.get i)).filterMap set.position? := by
    simp [Adjacency.induced, adjacency]
  rw [BareGraph.rowOf, successors_bare, pure_bind, looked, pure_bind, row]
  simp [List.filterMap_map, List.map_filterMap]

theorem rowsOf_bare (set : IndexedSet (Fin g.size)) :
    g.bare.rowsOf set.places.toArray (set.toList.map Fin.val) =
      pure (g.adjacency.induced set).bare := by
  have rows : (set.toList.map Fin.val).mapM (g.bare.rowOf set.places.toArray) =
      pure ((List.finRange set.size).map fun i =>
        ((g.adjacency.induced set)[i].map Fin.val).toArray) := by
    rw [set.toList_eq_map_get, List.map_map, List.mapM_map]
    exact mapM_eq_pure fun i _ => g.rowOf_bare set i
  rw [BareGraph.rowsOf, rows, pure_bind, Adjacency.toArray_rows]

/-- Enumeration in one component leaves the places as it found them. -/
theorem enumerate_bare (set : IndexedSet (Fin g.size)) (cyclic : Bool) (le : found.size ≤ cap) :
    g.bare.enumerate cap { places := Array.replicate g.size none, found }
        (Scc.bare { members := set.toList, cyclic }) =
      pure (appended (fun found => { places := Array.replicate g.size none, found })
        (List.map Fin.val) found
        (((g.adjacency.induced set).circuits (cap - found.size)).map fun c => c.map set.get)) := by
  have size : (set.toList.map Fin.val).length = set.size := by simp [IndexedSet.toList]
  have names : (set.toList.map Fin.val).toArray = set.names.toArray := by
    rw [← set.toList_names, Vector.toArray_toList]
  have searched := (g.adjacency.induced set).gather_circuitsFrom set.names le
  simp only [BareGraph.enumerate, Scc.bare, set.fill_places, pure_bind, rowsOf_bare,
    Adjacency.reverse_bare, size, names, searched, appended, id, sub_size_append,
    set.empty_places]
  simp [Capped.map, IndexedSet.names, Function.comp_def]

theorem circuits_bare {sccs : List (Scc g.size)} (h : SccPartition g.Arc sccs) (cap : Nat) :
    g.bare.circuits (sccs.map Scc.bare) cap =
      pure ((((g.circuits sccs cap).items.map (List.map Fin.val)).toArray),
        !(g.circuits sccs cap).truncated) := by
  let begin (found : Array (List Nat)) : BareLedger :=
    { places := Array.replicate g.size none, found }
  have cyclic : (sccs.map Scc.bare).filter BareScc.cyclic = (sccs.filter Scc.cyclic).map Scc.bare :=
    List.filter_map
  have each : ∀ scc ∈ sccs.filter Scc.cyclic, ∀ found : Array (List Nat), found.size ≤ cap →
      g.bare.enumerate cap (begin found) scc.bare = pure (appended begin (List.map Fin.val) found
        (g.adjacency.circuitsAmong scc.members (cap - found.size))) := by
    intro scc mem found le
    have ascending := h.ascending scc (List.mem_of_mem_filter mem)
    have members := Adjacency.toList_ofList_of_ascending ascending
    have enumerated := g.enumerate_bare (IndexedSet.ofList scc.members) scc.cyclic le
    rw [members] at enumerated
    exact enumerated
  have bounded : ∀ scc ∈ sccs.filter Scc.cyclic, ∀ room,
      (g.adjacency.circuitsAmong scc.members room).items.length ≤ room :=
    fun scc _ room => Capped.length_items_le (g.adjacency.circuitsAmong_eq_cut scc.members room)
  have gathered := gather_eq begin #[] bounded each (Nat.zero_le cap)
  simp only [BareGraph.circuits, size_nodes_bare, cyclic]
  show (gather (g.bare.enumerate cap) (begin #[]) _ >>= _) = _
  rw [gathered, pure_bind]
  simp [appended, begin, circuits]

end Graph

end Coupling
