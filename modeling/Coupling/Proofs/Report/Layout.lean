import Coupling.Report.Full
import Mathlib.Data.List.Chain

/-!
# The lines of reports

Names are written into a report as they are, line breaks included. What stands behind them in a row
is a number, so a report of metrics does not end with an empty line, and the reports that follow it
do not begin with one. With a line break in between, they are one empty line apart
(`spaced_fullReport`).
-/

namespace Coupling.Layout

def Inline (s : String) : Prop := ∀ c ∈ s.toList, c ≠ '\n'

/-- The last line is ended, and it is not empty. -/
def EndsLine (s : String) : Prop := ∃ front c, s.toList = front ++ [c, '\n'] ∧ c ≠ '\n'

/-- The first line is not empty. -/
def BeginsLine (s : String) : Prop := ∃ c rest, s.toList = c :: rest ∧ c ≠ '\n'

/-- The texts follow each other in `s`, one empty line apart. -/
structure Spaced (texts : List String) (s : String) : Prop where
  joined : s = "\n".intercalate texts
  apart : texts.IsChain fun a b => EndsLine a ∧ BeginsLine b

variable {s t : String}

/-! ## Texts without line breaks -/

theorem Inline.append (hs : Inline s) (ht : Inline t) : Inline (s ++ t) := by
  intro c hc
  rw [String.toList_append, List.mem_append] at hc
  exact hc.elim (hs c) (ht c)

theorem inline_join {l : List String} (each : ∀ s ∈ l, Inline s) : Inline (String.join l) := by
  intro c hc
  rw [String.toList_join, List.mem_flatMap] at hc
  obtain ⟨s, hs, hc⟩ := hc
  exact each s hs c hc

theorem inline_blanks (n : Nat) : Inline (blanks n) := by
  intro c hc
  simp only [blanks, String.toList_ofList, List.mem_replicate] at hc
  rw [hc.2]
  decide

theorem Inline.alignRight (h : Inline s) (width : Nat) : Inline (alignRight width s) :=
  (inline_blanks _).append h

theorem ne_of_isDigit {c : Char} (digit : c.isDigit = true) : c ≠ '\n' := by
  rintro rfl
  simp at digit

theorem inline_repr (n : Nat) : Inline n.repr := by
  intro c hc
  rw [Nat.repr_eq_ofList_toDigits, String.toList_ofList] at hc
  exact ne_of_isDigit (Nat.isDigit_of_mem_toDigits (by decide) (by decide) hc)

theorem inline_fixedDigits (places significand : Nat) (exponent : Int) :
    Inline (Decimal.fixedDigits places significand exponent) := by
  intro c hc
  unfold Decimal.fixedDigits at hc
  generalize Decimal.roundHalfEven _ _ = scaled at hc
  simp only [String.toList_ofList, List.mem_append, List.mem_cons] at hc
  have digit : ∀ c ∈ Decimal.padLeft (places + 1) '0' (Nat.toDigits 10 scaled),
      c.isDigit = true := by
    intro c hc
    rcases List.mem_append.mp hc with padding | digits
    · rw [(List.mem_replicate.mp padding).2]
      decide
    · exact Nat.isDigit_of_mem_toDigits (by decide) (by decide) digits
  rcases hc with whole | rfl | places
  · exact ne_of_isDigit (digit c (List.mem_of_mem_take whole))
  · decide
  · exact ne_of_isDigit (digit c (List.mem_of_mem_drop places))

theorem inline_ratio (x : Float) : Inline (ratio x) := by
  unfold ratio Decimal.fixed
  split
  · simp [Inline]
  · split <;> simp [Inline]
  · refine Inline.append ?_ (inline_fixedDigits _ _ _)
    split <;> simp [Inline]

/-! ## Ends of lines -/

theorem EndsLine.append (h : EndsLine t) (s : String) : EndsLine (s ++ t) := by
  obtain ⟨front, c, ends, visible⟩ := h
  exact ⟨s.toList ++ front, c, by rw [String.toList_append, ends, List.append_assoc], visible⟩

theorem endsLine_line (hs : Inline s) (ne_nil : s.toList ≠ []) : EndsLine (line s) := by
  refine ⟨s.toList.dropLast, s.toList.getLast ne_nil, ?_, hs _ (List.getLast_mem ne_nil)⟩
  rw [line, String.toList_append]
  conv_lhs => rw [← List.dropLast_append_getLast ne_nil]
  simp

theorem line_append (s t : String) : line (s ++ t) = s ++ line t := String.append_assoc

theorem endsLine_append_join (hs : EndsLine s) {l : List String} (each : ∀ t ∈ l, EndsLine t) :
    EndsLine (s ++ String.join l) := by
  induction l generalizing s with
  | nil => simpa using hs
  | cons t l ih =>
    rw [String.join_cons, ← String.append_assoc]
    have ht : EndsLine t := each t List.mem_cons_self
    exact ih (ht.append s) fun u hu => each u (List.mem_cons_of_mem _ hu)

/-- The name of a row may have line breaks, but not what stands in its columns. -/
theorem endsLine_row {α : Type} {columns : List (Column α)} (ne_nil : columns ≠ [])
    (name : String) {text : Column α → String} (each : ∀ column ∈ columns, Inline (text column)) :
    EndsLine (row name columns text) := by
  rw [row, line_append]
  apply EndsLine.append
  apply endsLine_line
  · apply inline_join
    intro s hs
    obtain ⟨column, hc, rfl⟩ := List.mem_map.mp hs
    refine Inline.append ?_ ((each column hc).alignRight _)
    simp [Inline]
  · obtain ⟨column, rest, rfl⟩ := List.exists_cons_of_ne_nil ne_nil
    simp [String.toList_join]

theorem endsLine_table {α : Type} {columns : List (Column α)} (ne_nil : columns ≠ [])
    (titles : ∀ column ∈ columns, Inline column.title)
    (cells : ∀ column ∈ columns, ∀ a, Inline (column.cell a)) (name : α → String) (l : List α) :
    EndsLine (table name columns l) := by
  apply endsLine_append_join (endsLine_row ne_nil _ titles)
  intro s hs
  obtain ⟨a, _, rfl⟩ := List.mem_map.mp hs
  exact endsLine_row ne_nil _ fun column hc => cells column hc a

theorem endsLine_entry (key : String) {value : String} (inline : Inline value) :
    EndsLine (entry key value) := by
  rw [entry, String.append_assoc, line_append]
  apply EndsLine.append
  apply endsLine_line
  · exact Inline.append (by simp [Inline]) inline
  · simp

/-- A part that is left out where there is nothing to show in it. -/
theorem EndsLine.append_optional {p : Prop} [Decidable p] (hs : EndsLine s) (ht : EndsLine t) :
    EndsLine (s ++ if p then "" else "\n" ++ t) := by
  split
  · rwa [String.append_empty]
  · exact (ht.append _).append _

theorem BeginsLine.append (h : BeginsLine s) (t : String) : BeginsLine (s ++ t) := by
  obtain ⟨c, rest, begins, visible⟩ := h
  exact ⟨c, rest ++ t.toList, by rw [String.toList_append, begins, List.cons_append], visible⟩

/-! ## Reports -/

theorem beginsLine_title {c : Char} {rest : List Char} (begins : s.toList = c :: rest)
    (visible : c ≠ '\n') : BeginsLine (title s) :=
  BeginsLine.append (BeginsLine.append ⟨c, rest, begins, visible⟩ _) _

theorem endsLine_lakos (m : LakosMetrics Float) : EndsLine (Report.plain m) := by
  simp only [Report.plain]
  apply EndsLine.append_optional
  · exact (endsLine_entry _ (inline_ratio _)).append _
  · apply endsLine_table
    · simp
    · simp [Inline]
    · simp [inline_repr]

theorem endsLine_couplings (m : CouplingMetrics Float) : EndsLine (Report.plain m) := by
  simp only [Report.plain]
  apply EndsLine.append
  split
  · apply endsLine_line
    · simp [Inline]
    · simp
  · apply endsLine_table
    · simp
    · simp [Inline]
    · simp [inline_repr, inline_ratio]

theorem endsLine_visibility (m : VisibilityMetrics Float) : EndsLine (Report.plain m) := by
  simp only [Report.plain]
  apply EndsLine.append_optional
  · exact (endsLine_entry _ (inline_ratio _)).append _
  · apply endsLine_table
    · simp
    · simp [Inline]
    · simp [inline_repr, inline_ratio]

theorem beginsLine_couplings (m : CouplingMetrics Float) : BeginsLine (Report.plain m) :=
  (beginsLine_title rfl (by decide)).append _

theorem beginsLine_visibility (m : VisibilityMetrics Float) : BeginsLine (Report.plain m) :=
  (((beginsLine_title rfl (by decide)).append _).append _).append _

theorem beginsLine_cycles (r : CyclesReport) : BeginsLine (Report.plain r) := by
  show BeginsLine r.plain
  unfold CyclesReport.plain
  split
  · exact BeginsLine.append ⟨'N', _, rfl, by decide⟩ _
  · apply BeginsLine.append
    apply BeginsLine.append
    apply BeginsLine.append
    unfold CyclesReport.plainTitle
    split
    · exact BeginsLine.append (BeginsLine.append (BeginsLine.append (BeginsLine.append
        ⟨'D', _, rfl, by decide⟩ _) _) _) _
    · exact BeginsLine.append (BeginsLine.append ⟨'D', _, rfl, by decide⟩ _) _

/-- The full report is made of the reports that its parts have on their own. -/
theorem spaced_fullReport (r : FullReport) :
    Spaced [Report.plain r.lakos, Report.plain r.couplings, Report.plain r.visibility,
      Report.plain r.cycles] (Report.plain r) where
  joined := rfl
  apart := by
    simp [endsLine_lakos, endsLine_couplings, endsLine_visibility, beginsLine_couplings,
      beginsLine_visibility, beginsLine_cycles]

end Coupling.Layout
