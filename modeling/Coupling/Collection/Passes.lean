/-!
# Passes over a list that may fail

The first failure ends a pass (`mapM_eq_error_iff`); one that succeeds has succeeded on every item.
-/

namespace Coupling

variable {α β γ σ ε : Type}

theorem eq_ok_of_toOption {x : Except ε α} {a : α} (h : x.toOption = some a) : x = .ok a := by
  cases x with
  | error e => cases h
  | ok b =>
    cases h
    rfl

theorem bind_eq_ok {x : Except ε α} {f : α → Except ε β} {b : β} :
    (x >>= f) = .ok b ↔ ∃ a, x = .ok a ∧ f a = .ok b := by
  cases x with
  | error e =>
    constructor
    · intro h
      cases h
    · intro h
      obtain ⟨_, h, _⟩ := h
      cases h
  | ok a =>
    constructor
    · intro h
      exact ⟨a, rfl, h⟩
    · intro h
      obtain ⟨_, ha, h⟩ := h
      cases ha
      exact h

theorem bind_eq_error {x : Except ε α} {f : α → Except ε β} {e : ε} :
    (x >>= f) = .error e ↔ x = .error e ∨ ∃ a, x = .ok a ∧ f a = .error e := by
  cases x with
  | error e' => simp [bind, Except.bind]
  | ok a => simp [bind, Except.bind]

theorem map_eq_ok {x : Except ε α} {f : α → β} {b : β} :
    x.map f = .ok b ↔ ∃ a, x = .ok a ∧ f a = b := by
  cases x with
  | error e => simp [Except.map]
  | ok a => simp [Except.map]

theorem map_eq_error {x : Except ε α} {f : α → β} {e : ε} :
    x.map f = .error e ↔ x = .error e := by
  cases x with
  | error e' => simp [Except.map]
  | ok a => simp [Except.map]

theorem mapError_eq_ok {ε' : Type} {x : Except ε α} {f : ε → ε'} {a : α} :
    x.mapError f = .ok a ↔ x = .ok a := by
  cases x with
  | error e =>
    constructor
    · intro h
      cases h
    · intro h
      cases h
  | ok b =>
    constructor
    · intro h
      cases h
      rfl
    · intro h
      cases h
      rfl

theorem mapError_eq_error {ε' : Type} {x : Except ε α} {f : ε → ε'} {e' : ε'} :
    x.mapError f = .error e' ↔ ∃ e, x = .error e ∧ f e = e' := by
  cases x with
  | error e =>
    constructor
    · intro h
      cases h
      exact ⟨e, rfl, rfl⟩
    · intro h
      obtain ⟨_, h, rfl⟩ := h
      cases h
      rfl
  | ok a =>
    constructor
    · intro h
      cases h
    · intro h
      obtain ⟨_, h, _⟩ := h
      cases h

theorem mapM_cons_eq_ok {f : α → Except ε β} {a : α} {l : List α} {out : List β} :
    (a :: l).mapM f = .ok out ↔
      ∃ b, f a = .ok b ∧ ∃ rest, l.mapM f = .ok rest ∧ b :: rest = out := by
  simp only [List.mapM_cons, bind_eq_ok, pure, Except.pure, Except.ok.injEq]

theorem foldlM_cons_eq_ok {f : σ → α → Except ε σ} {a : α} {l : List α} {s t : σ} :
    (a :: l).foldlM f s = .ok t ↔ ∃ m, f s a = .ok m ∧ l.foldlM f m = .ok t := by
  rw [List.foldlM_cons, bind_eq_ok]

theorem mapM_cons_eq_error {f : α → Except ε β} {a : α} {l : List α} {e : ε} :
    (a :: l).mapM f = .error e ↔ f a = .error e ∨ ∃ b, f a = .ok b ∧ l.mapM f = .error e := by
  rw [List.mapM_cons]
  cases head : f a with
  | error e' => simp [bind, Except.bind]
  | ok b => cases tail : l.mapM f <;> simp [bind, Except.bind, pure, Except.pure]

/-- A pass fails as the first item does that fails. -/
theorem mapM_eq_error_iff {f : α → Except ε β} {l : List α} {e : ε} :
    l.mapM f = .error e ↔
      ∃ i a, l[i]? = some a ∧ f a = .error e ∧ ∀ b ∈ l.take i, ∃ c, f b = .ok c := by
  induction l with
  | nil => simp [pure, Except.pure]
  | cons a l ih =>
    rw [mapM_cons_eq_error, ih]
    constructor
    · rintro (here | ⟨b, hb, i, a', at_i, later, before⟩)
      · exact ⟨0, a, rfl, here, by simp⟩
      · refine ⟨i + 1, a', at_i, later, ?_⟩
        intro x hx
        rcases List.mem_cons.mp hx with rfl | hx
        · exact ⟨b, hb⟩
        · exact before x hx
    · rintro ⟨i, a', at_i, failed, before⟩
      cases i with
      | zero =>
        cases at_i
        exact Or.inl failed
      | succ i =>
        obtain ⟨b, hb⟩ := before a List.mem_cons_self
        exact Or.inr ⟨b, hb, i, a', at_i, failed, fun x hx => before x (List.mem_cons_of_mem _ hx)⟩

theorem foldlM_cons_eq_error {f : σ → α → Except ε σ} {a : α} {l : List α} {s : σ} {e : ε} :
    (a :: l).foldlM f s = .error e ↔
      f s a = .error e ∨ ∃ m, f s a = .ok m ∧ l.foldlM f m = .error e := by
  rw [List.foldlM_cons, bind_eq_error]

/-- A pass with a state fails on the first item that fails in the state that the items before it
lead to. -/
theorem foldlM_eq_error_iff {f : σ → α → Except ε σ} {l : List α} {s : σ} {e : ε} :
    l.foldlM f s = .error e ↔
      ∃ i a t, l[i]? = some a ∧ (l.take i).foldlM f s = .ok t ∧ f t a = .error e := by
  induction l generalizing s with
  | nil => simp [pure, Except.pure]
  | cons a l ih =>
    rw [foldlM_cons_eq_error]
    constructor
    · rintro (here | ⟨m, hm, later⟩)
      · exact ⟨0, a, s, rfl, rfl, here⟩
      · obtain ⟨i, b, t, at_i, before, failed⟩ := ih.mp later
        exact ⟨i + 1, b, t, at_i, foldlM_cons_eq_ok.mpr ⟨m, hm, before⟩, failed⟩
    · rintro ⟨i, b, t, at_i, before, failed⟩
      cases i with
      | zero =>
        cases at_i
        cases before
        exact Or.inl failed
      | succ i =>
        obtain ⟨m, hm, before⟩ := foldlM_cons_eq_ok.mp before
        exact Or.inr ⟨m, hm, ih.mpr ⟨i, b, t, at_i, before, failed⟩⟩

/-- If only the items decide about failure, all of them may be looked at before the first change of
the state. -/
theorem foldlM_eq_mapM {f : σ → α → Except ε σ} {look : α → Except ε β} {change : σ → β → σ}
    (split : ∀ s a, f s a = (look a).map (change s)) (l : List α) (s : σ) :
    l.foldlM f s = (l.mapM look).map fun found => found.foldl change s := by
  induction l generalizing s with
  | nil => rfl
  | cons a l ih =>
    rw [List.foldlM_cons, List.mapM_cons, split]
    cases look a with
    | error e => rfl
    | ok b =>
      simp only [Except.map, bind, Except.bind, ih]
      cases l.mapM look <;> rfl

/-- What can be read off the results can be read off the items. -/
theorem map_of_mapM_eq_ok {f : α → Except ε β} {k : α → γ} {h : β → γ}
    (spec : ∀ a b, f a = .ok b → h b = k a) {l : List α} {out : List β}
    (result : l.mapM f = .ok out) : out.map h = l.map k := by
  induction l generalizing out with
  | nil =>
    cases result
    rfl
  | cons a l ih =>
    obtain ⟨b, hb, rest, hr, rfl⟩ := mapM_cons_eq_ok.mp result
    rw [List.map_cons, List.map_cons, spec a b hb, ih hr]

theorem exists_mapM {f : α → Except ε β} {l : List α} (each : ∀ a ∈ l, ∃ b, f a = .ok b) :
    ∃ out, l.mapM f = .ok out := by
  induction l with
  | nil => exact ⟨[], rfl⟩
  | cons a l ih =>
    obtain ⟨b, hb⟩ := each a List.mem_cons_self
    obtain ⟨rest, hr⟩ := ih fun a' ha' => each a' (List.mem_cons_of_mem _ ha')
    exact ⟨b :: rest, mapM_cons_eq_ok.mpr ⟨b, hb, rest, hr, rfl⟩⟩

end Coupling
