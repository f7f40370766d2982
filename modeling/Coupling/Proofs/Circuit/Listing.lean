import Coupling.Proofs.Circuit.Pruning

/-!
# All elementary circuits in one order

The region of a start node holds exactly the nodes that lie with it on a closed walk through no
smaller node, in whatever order the arcs are listed backwards (`allowed_ofStart`). So no circuit
leaves the region of its smallest node (`allowed_of_closed_walk`), and the searches from all start
nodes together list every elementary circuit (`mem_listing`), ordered by start node and then by
where two circuits part (`pairwise_listing`). The same holds of the circuits among some nodes,
which are searched by their positions (`mem_listingAmong`, `pairwise_listingAmong`).
-/

namespace Coupling

open Relation

variable {n k : Nat}

namespace Adjacency

/-- Arcs between nodes that are not below `s`. -/
def ArcFrom (adj : Adjacency k) (s v w : Fin k) : Prop := adj.Arc v w ∧ s ≤ v ∧ s ≤ w

theorem le_of_reaches_arcFrom {adj : Adjacency k} {s v : Fin k}
    (h : ReflTransGen (adj.ArcFrom s) s v) : s ≤ v := by
  cases h with
  | refl => exact le_refl s
  | tail _ arc => exact arc.2.2

theorem reached_above_iff (adj : Adjacency k) (s v : Fin k) :
    Reached adj (Vector.ofFn fun v => decide (s < v)) [s] v ↔
      ReflTransGen (adj.ArcFrom s) s v := by
  constructor
  · intro h
    induction h with
    | root h =>
      rw [List.mem_singleton.mp h]
    | @step v w _ arc raised ih =>
      have above : s < w := by simpa using raised
      exact ih.tail ⟨arc, le_of_reaches_arcFrom ih, above.le⟩
  · intro h
    induction h with
    | refl => exact .root (List.mem_singleton_self s)
    | @tail v w _ arc ih =>
      rcases arc.2.2.eq_or_lt with rfl | above
      · exact .root (List.mem_singleton_self s)
      · exact .step ih arc.1 (by simpa using above)

/-- The arcs of a closed walk run between nodes that are not below its smallest node. -/
theorem arcFrom_of_closedPairs {adj : Adjacency k} {s : Fin k} {c : List (Fin k)}
    (arcs : ∀ p ∈ closedPairs c, adj.Arc p.1 p.2) (least : ∀ v ∈ c, s ≤ v) :
    ∀ p ∈ closedPairs c, adj.ArcFrom s p.1 p.2 := by
  intro p hp
  exact ⟨arcs p hp, least p.1 (fst_mem_of_mem_closedPairs hp),
    least p.2 (snd_mem_of_mem_closedPairs hp)⟩

section Regions

variable {adj back : Adjacency k} (reversed : ∀ v w : Fin k, v ∈ back[w] ↔ w ∈ adj[v])

include reversed

theorem arcFrom_reversed (s : Fin k) : back.ArcFrom s = Function.swap (adj.ArcFrom s) := by
  funext v w
  simp only [ArcFrom, Arc, Function.swap, reversed, eq_iff_iff]
  exact and_congr_right fun _ => and_comm

/-- The region of `s` consists of the nodes on closed walks through `s` and no smaller node. -/
theorem allowed_ofStart (s v : Fin k) :
    (Region.ofStart adj back s).allowed[v] = true ↔ Mutual (adj.ArcFrom s) s v := by
  let above : Vector Bool k := Vector.ofFn fun v => decide (s < v)
  have lowered : ∀ u ∈ [s], above[u] = false := by simp [above]
  have flag : ∀ adj' : Adjacency k, s ≤ v → ((adj'.flood above [s] []).1[v] = false ↔
      ReflTransGen (adj'.ArcFrom s) s v) := by
    intro adj' le
    rw [← reached_above_iff, ← Bool.not_eq_true, flood_flag _ _ _ lowered, not_and, not_not]
    refine ⟨fun h => ?_, fun h _ => h⟩
    rcases le.eq_or_lt with rfl | lt
    · exact .root (List.mem_singleton_self _)
    · exact h (by simpa [above] using lt)
  have split : (Region.ofStart adj back s).allowed[v] = true ↔
      s ≤ v ∧ (adj.flood above [s] []).1[v] = false ∧
        (back.flood above [s] []).1[v] = false := by
    simp [Region.ofStart, above, and_assoc]
  rw [split]
  constructor
  · intro h
    obtain ⟨le, ahead, behind⟩ := h
    refine ⟨(flag adj le).mp ahead, ?_⟩
    have behind := (flag back le).mp behind
    rw [arcFrom_reversed reversed] at behind
    exact reflTransGen_swap.mp behind
  · intro h
    obtain ⟨ahead, behind⟩ := h
    have le := le_of_reaches_arcFrom ahead
    refine ⟨le, (flag adj le).mpr ahead, (flag back le).mpr ?_⟩
    rw [arcFrom_reversed reversed]
    exact reflTransGen_swap.mpr behind

/-- A closed walk whose smallest node is `s` stays in the region of `s`. -/
theorem allowed_of_closed_walk {s : Fin k} {c : List (Fin k)}
    (arcs : ∀ p ∈ closedPairs c, adj.Arc p.1 p.2) (hs : s ∈ c) (least : ∀ v ∈ c, s ≤ v)
    {v : Fin k} (hv : v ∈ c) :
    (Region.ofStart adj back s).allowed[v] = true := by
  have inside := arcFrom_of_closedPairs arcs least
  exact (allowed_ofStart reversed s v).mpr (mutual_of_closedPairs inside hs hv)

theorem closes_ofStart {s : Fin k} {l : List (Fin k)} :
    (Region.ofStart adj back s).Closes [s] s l ↔ ElementaryCircuit adj.Arc (s :: l) := by
  constructor
  · intro h
    have fresh : s ∉ l := fun hs => h.fresh s hs (List.mem_singleton_self s)
    refine elementaryCircuit_cons.mpr ⟨List.nodup_cons.mpr ⟨fresh, h.nodup⟩, h.walk, ?_⟩
    intro w hw
    have allowed := (allowed_ofStart reversed s w).mp (h.allowed w (List.mem_append_left _ hw))
    exact le_of_reaches_arcFrom allowed.1
  · intro circuit
    obtain ⟨nodup, walk, _⟩ := elementaryCircuit_cons.mp circuit
    obtain ⟨hs, nodup⟩ := List.nodup_cons.mp nodup
    refine ⟨nodup, ?_, walk, ?_⟩
    · intro w hw mem
      exact hs (List.mem_singleton.mp mem ▸ hw)
    · intro w hw
      have mem : w ∈ s :: l :=
        List.mem_cons.mpr ((List.mem_append.mp hw).symm.imp_left List.mem_singleton.mp)
      exact allowed_of_closed_walk reversed circuit.arcs List.mem_cons_self
        (circuit.least s rfl) mem

theorem mem_closings_ofStart {s : Fin k} {c : List (Fin k)} :
    c ∈ (Region.ofStart adj back s).closings [s] ↔
      ElementaryCircuit adj.Arc c ∧ c.head? = some s := by
  have started : (Region.ofStart adj back s).start ∈ [s] := List.mem_singleton_self s
  rw [Region.mem_closings started]
  constructor
  · intro h
    obtain ⟨l, rfl, closes⟩ := h
    exact ⟨(closes_ofStart reversed).mp closes, rfl⟩
  · intro h
    obtain ⟨circuit, head⟩ := h
    obtain ⟨l, rfl⟩ := List.head?_eq_some_iff.mp head
    exact ⟨l, rfl, (closes_ofStart reversed).mpr circuit⟩

end Regions

/-- What the searches from all start nodes list when nothing is cut. -/
def listing (adj : Adjacency k) : List (List (Fin k)) :=
  (List.finRange k).flatMap fun s => (Region.ofStart adj adj.transpose s).closings [s]

theorem circuits_eq_cut (adj : Adjacency k) (cap : Nat) :
    adj.circuits cap = .cut cap adj.listing :=
  Capped.gather_eq_cut _ _ _ (fun s _ cap => (Region.ofStart adj _ s).circuits_eq_cut cap) cap

theorem mem_listing {adj : Adjacency k} {c : List (Fin k)} :
    c ∈ adj.listing ↔ ElementaryCircuit adj.Arc c := by
  simp only [listing, List.mem_flatMap, List.mem_finRange, true_and,
    mem_closings_ofStart adj.mem_transpose]
  constructor
  · intro h
    obtain ⟨s, circuit, _⟩ := h
    exact circuit
  · intro circuit
    obtain ⟨s, l, rfl⟩ := List.exists_cons_of_ne_nil circuit.ne_nil
    exact ⟨s, circuit, rfl⟩

end Adjacency

/-- The nodes of a circuit, the first one again at the end. -/
def closedWalk {α : Type} (c : List α) : List α := c ++ c.take 1

theorem closedWalk_map {α β : Type} (f : α → β) (c : List α) :
    closedWalk (c.map f) = (closedWalk c).map f := by
  rw [closedWalk, closedWalk, List.map_append, List.map_take]

/-- By the first node, and from the same first node by where the closed walks part. -/
def StartsBefore (earlier : Fin k → Fin k → Fin k → Prop) (c d : List (Fin k)) : Prop :=
  ∃ v ∈ c.head?, ∃ w ∈ d.head?,
    v < w ∨ (v = w ∧ Parts earlier (closedWalk c) (closedWalk d))

theorem Adjacency.pairwise_listing {adj : Adjacency k} {earlier : Fin k → Fin k → Fin k → Prop}
    (ordered : ∀ v : Fin k, adj[v].Pairwise (earlier v)) :
    adj.listing.Pairwise (StartsBefore earlier) := by
  rw [listing, List.pairwise_flatMap]
  constructor
  · intro s _
    have started : (Region.ofStart adj adj.transpose s).start ∈ [s] := List.mem_singleton_self s
    refine (Region.pairwise_closings ordered started).imp_of_mem ?_
    intro c d hc hd parts
    obtain ⟨_, hc⟩ := (mem_closings_ofStart adj.mem_transpose).mp hc
    obtain ⟨_, hd⟩ := (mem_closings_ofStart adj.mem_transpose).mp hd
    refine ⟨s, hc, s, hd, Or.inr ⟨rfl, ?_⟩⟩
    obtain ⟨l, rfl⟩ := List.head?_eq_some_iff.mp hc
    obtain ⟨l', rfl⟩ := List.head?_eq_some_iff.mp hd
    exact parts
  · refine (List.pairwise_lt_finRange k).imp fun {s s'} lt c hc d hd => ?_
    obtain ⟨_, hc⟩ := (mem_closings_ofStart adj.mem_transpose).mp hc
    obtain ⟨_, hd⟩ := (mem_closings_ofStart adj.mem_transpose).mp hd
    exact ⟨s, hc, s', hd, Or.inl lt⟩

/-! ## Circuits among some of the nodes -/

section Among

variable {f : Fin k → Fin n} {R : Fin n → Fin n → Prop}

theorem elementaryCircuit_map (mono : ∀ i j, i < j → f i < f j) {c : List (Fin k)} :
    ElementaryCircuit R (c.map f) ↔ ElementaryCircuit (fun i j => R (f i) (f j)) c := by
  have strict : StrictMono f := fun i j => mono i j
  cases c with
  | nil => exact ⟨fun h => absurd rfl h.ne_nil, fun h => absurd rfl h.ne_nil⟩
  | cons i l =>
    have walk : f i :: (l.map f ++ [f i]) = (i :: (l ++ [i])).map f := by simp
    rw [List.map_cons, elementaryCircuit_cons, elementaryCircuit_cons, walk, List.isChain_map,
      ← List.map_cons, List.nodup_map_iff strict.injective, List.forall_mem_map]
    simp only [strict.le_iff_le]

theorem StartsBefore.map (mono : ∀ i j, i < j → f i < f j)
    {earlier : Fin k → Fin k → Fin k → Prop} {earlier' : Fin n → Fin n → Fin n → Prop}
    (h : ∀ v w w', earlier v w w' → earlier' (f v) (f w) (f w')) {c d : List (Fin k)}
    (before : StartsBefore earlier c d) : StartsBefore earlier' (c.map f) (d.map f) := by
  obtain ⟨v, hv, w, hw, before⟩ := before
  refine ⟨f v, by simp [Option.mem_def.mp hv], f w, by simp [Option.mem_def.mp hw], ?_⟩
  rcases before with lt | ⟨rfl, parts⟩
  · exact Or.inl (mono v w lt)
  · refine Or.inr ⟨rfl, ?_⟩
    rw [closedWalk_map, closedWalk_map]
    exact parts.map f h

end Among

namespace Adjacency

theorem map_get_induced (adj : Adjacency n) (s : IndexedSet (Fin n)) (i : Fin s.size) :
    (adj.induced s)[i].map s.get = adj[s.get i].filter (· ∈ s.toList) := by
  have row : (adj.induced s)[i] = adj[s.get i].filterMap s.position? := by simp [induced]
  rw [row, List.map_filterMap, ← List.filterMap_eq_filter]
  congr 1
  funext v
  cases h : s.position? v with
  | none =>
    have absent := IndexedSet.position?_eq_none_iff.mp h
    simp [Option.guard, absent]
  | some j =>
    have get := IndexedSet.position?_eq_some_iff.mp h
    have mem := IndexedSet.mem_toList_iff.mpr ⟨j, get⟩
    simp [Option.guard, get, mem]

/-- `w` stands before `w'` among the successors of `v`. -/
def Earlier (adj : Adjacency n) (v w w' : Fin n) : Prop := adj[v].idxOf w < adj[v].idxOf w'

theorem pairwise_idxOf_lt {α : Type} [DecidableEq α] {l : List α} (h : l.Nodup) :
    l.Pairwise fun a b => l.idxOf a < l.idxOf b := by
  rw [List.pairwise_iff_getElem]
  intro i j hi hj lt
  rw [h.idxOf_getElem, h.idxOf_getElem]
  exact lt

theorem pairwise_earlier_induced {adj : Adjacency n} {s : IndexedSet (Fin n)} (i : Fin s.size)
    (nodup : adj[s.get i].Nodup) :
    (adj.induced s)[i].Pairwise fun w w' => adj.Earlier (s.get i) (s.get w) (s.get w') := by
  have mapped : ((adj.induced s)[i].map s.get).Pairwise (adj.Earlier (s.get i)) := by
    rw [map_get_induced]
    exact (pairwise_idxOf_lt nodup).filter _
  exact List.pairwise_map.mp mapped

/-- What is listed among `members` when nothing is cut. -/
def listingAmong (adj : Adjacency n) (members : List (Fin n)) : List (List (Fin n)) :=
  let members := IndexedSet.ofList members
  (adj.induced members).listing.map fun c => c.map members.get

theorem circuitsAmong_eq_cut (adj : Adjacency n) (members : List (Fin n)) (cap : Nat) :
    adj.circuitsAmong members cap = .cut cap (adj.listingAmong members) := by
  rw [circuitsAmong, circuits_eq_cut, Capped.map_cut]
  rfl

variable {members : List (Fin n)}

theorem toList_ofList_of_ascending (ascending : members.Pairwise (· < ·)) :
    (IndexedSet.ofList members).toList = members :=
  IndexedSet.toList_ofList_of_nodup (ascending.imp fun lt => lt.ne)

theorem get_lt_get (ascending : members.Pairwise (· < ·))
    (i j : Fin (IndexedSet.ofList members).size) (lt : i < j) :
    (IndexedSet.ofList members).get i < (IndexedSet.ofList members).get j := by
  have sorted := ascending
  rw [← toList_ofList_of_ascending ascending, List.pairwise_iff_getElem] at sorted
  exact sorted i j (by simp [IndexedSet.toList]) (by simp [IndexedSet.toList]) lt

theorem mem_listingAmong {adj : Adjacency n} (ascending : members.Pairwise (· < ·))
    {c : List (Fin n)} :
    c ∈ adj.listingAmong members ↔ ElementaryCircuit adj.Arc c ∧ ∀ v ∈ c, v ∈ members := by
  have toList := toList_ofList_of_ascending ascending
  have arcs : ((adj.induced (IndexedSet.ofList members)).Arc) = fun i j =>
      adj.Arc ((IndexedSet.ofList members).get i) ((IndexedSet.ofList members).get j) := by
    funext i j
    exact propext (mem_induced adj _ i j)
  have circuit := fun c => elementaryCircuit_map (R := adj.Arc) (c := c) (get_lt_get ascending)
  simp only [listingAmong, List.mem_map, mem_listing, arcs, ← circuit]
  constructor
  · intro h
    obtain ⟨local_, circuit, rfl⟩ := h
    refine ⟨circuit, fun v hv => ?_⟩
    obtain ⟨i, _, hi⟩ := List.mem_map.mp hv
    have mem : v ∈ (IndexedSet.ofList members).toList := IndexedSet.mem_toList_iff.mpr ⟨i, hi⟩
    exact toList ▸ mem
  · intro h
    obtain ⟨circuit, inside⟩ := h
    have preimage : ∀ v ∈ c, ∃ i, (IndexedSet.ofList members).get i = v := by
      intro v hv
      rw [← IndexedSet.mem_toList_iff, toList]
      exact inside v hv
    have image : c ∈ Set.range (List.map (IndexedSet.ofList members).get) := by
      rw [Set.range_list_map]
      exact preimage
    obtain ⟨d, rfl⟩ := image
    exact ⟨d, circuit, rfl⟩

theorem pairwise_listingAmong {adj : Adjacency n} (nodup : ∀ v : Fin n, adj[v].Nodup)
    (ascending : members.Pairwise (· < ·)) :
    (adj.listingAmong members).Pairwise (StartsBefore adj.Earlier) := by
  rw [listingAmong, List.pairwise_map]
  refine (pairwise_listing fun i => pairwise_earlier_induced i (nodup _)).imp ?_
  exact fun before => before.map (get_lt_get ascending) fun _ _ _ h => h

end Adjacency

end Coupling
