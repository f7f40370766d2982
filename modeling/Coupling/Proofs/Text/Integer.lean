import Coupling.Collection.Passes
import Coupling.Text.Integer

/-!
# What is read as an integer

`Numeral` says, without any reader, which texts stand for which signed 64-bit integers: digits with
or without a sign, of a value in the range. These and no others are read (`readInteger_eq_ok`).
-/

namespace Coupling.Text

/-- At least one character, all of them digits, and the number they are the digits of. -/
structure Digits (cs : List Char) (n : Nat) : Prop where
  nonempty : cs ≠ []
  digits : ∀ c ∈ cs, c.isDigit = true
  value : Nat.ofDigitChars 10 cs 0 = n

inductive Numeral : List Char → Int → Prop where
  | unsigned {cs : List Char} {n : Nat} (shown : Digits cs n) (range : n ≤ 0x7fffffffffffffff) :
    Numeral cs n
  | plus {cs : List Char} {n : Nat} (shown : Digits cs n) (range : n ≤ 0x7fffffffffffffff) :
    Numeral ('+' :: cs) n
  | minus {cs : List Char} {n : Nat} (shown : Digits cs n) (range : n ≤ 0x8000000000000000) :
    Numeral ('-' :: cs) (-n)

variable {bound value n : Nat} {beyond : IntegerFault} {cs : List Char} {c : Char} {i : Int}

theorem le_ofDigitChars (cs : List Char) (value : Nat) : value ≤ Nat.ofDigitChars 10 cs value := by
  rw [Nat.ofDigitChars_eq_ofDigitChars_zero]
  have scaled := Nat.le_mul_of_pos_left value (Nat.pow_pos (n := cs.length) (show 0 < 10 by decide))
  omega

/-- A value that has left the range does not come back, so the range may as well be looked at when
all digits have been read. -/
theorem readMagnitude_eq_ok (start : value ≤ bound) :
    readMagnitude bound beyond value cs = .ok n ↔
      (∀ c ∈ cs, c.isDigit = true) ∧ Nat.ofDigitChars 10 cs value = n ∧ n ≤ bound := by
  induction cs generalizing value with
  | nil =>
    simp only [readMagnitude, Except.ok.injEq, Nat.ofDigitChars_nil, List.not_mem_nil]
    constructor
    · rintro rfl
      exact ⟨fun _ => False.elim, rfl, start⟩
    · intro h
      exact h.2.1
  | cons c cs ih =>
    rw [readMagnitude, Nat.ofDigitChars_cons, List.forall_mem_cons]
    by_cases digit : c.isDigit = true
    · rw [if_pos digit]
      by_cases within : 10 * value + decimalValue c ≤ bound
      · have rest := ih within
        simp only [digit, true_and, if_pos within]
        exact rest
      · have grown : _ ≤ Nat.ofDigitChars 10 cs _ :=
          le_ofDigitChars cs (10 * value + decimalValue c)
        simp only [if_neg within]
        constructor
        · intro refused
          cases refused
        · rintro ⟨_, rfl, range⟩
          exact absurd (Nat.le_trans grown range) within
    · simp [digit]

theorem readMagnitude_zero_eq_ok (nonempty : cs ≠ []) :
    readMagnitude bound beyond 0 cs = .ok n ↔ Digits cs n ∧ n ≤ bound := by
  rw [readMagnitude_eq_ok (Nat.zero_le bound)]
  constructor
  · rintro ⟨digits, value, range⟩
    exact ⟨⟨nonempty, digits, value⟩, range⟩
  · rintro ⟨shown, range⟩
    exact ⟨shown.digits, shown.value, range⟩

theorem readPositive_eq_ok :
    readPositive cs = .ok i ↔ ∃ n : Nat, Digits cs n ∧ n ≤ 0x7fffffffffffffff ∧ i = n := by
  unfold readPositive
  split
  next =>
    constructor
    · intro refused
      cases refused
    · rintro ⟨n, shown, _⟩
      exact absurd rfl shown.nonempty
  next nonempty =>
    simp only [map_eq_ok, readMagnitude_zero_eq_ok nonempty, and_assoc, Int.ofNat_eq_natCast,
      @eq_comm _ i]

theorem Digits.head (shown : Digits (c :: cs) n) : c.isDigit = true :=
  shown.digits c List.mem_cons_self

theorem numeral_plus_iff :
    Numeral ('+' :: cs) i ↔ ∃ n : Nat, Digits cs n ∧ n ≤ 0x7fffffffffffffff ∧ i = n := by
  constructor
  · intro h
    cases h with
    | unsigned shown => exact absurd shown.head (by decide)
    | plus shown range => exact ⟨_, shown, range, rfl⟩
  · rintro ⟨n, shown, range, rfl⟩
    exact .plus shown range

theorem numeral_minus_iff :
    Numeral ('-' :: cs) i ↔ ∃ n : Nat, Digits cs n ∧ n ≤ 0x8000000000000000 ∧ i = -n := by
  constructor
  · intro h
    cases h with
    | unsigned shown => exact absurd shown.head (by decide)
    | minus shown range => exact ⟨_, shown, range, rfl⟩
  · rintro ⟨n, shown, range, rfl⟩
    exact .minus shown range

theorem numeral_unsigned_iff (plus : ∀ rest, cs = '+' :: rest → False)
    (minus : ∀ rest, cs = '-' :: rest → False) :
    Numeral cs i ↔ ∃ n : Nat, Digits cs n ∧ n ≤ 0x7fffffffffffffff ∧ i = n := by
  constructor
  · intro h
    cases h with
    | unsigned shown range => exact ⟨_, shown, range, rfl⟩
    | plus => exact (plus _ rfl).elim
    | minus => exact (minus _ rfl).elim
  · rintro ⟨n, shown, range, rfl⟩
    exact .unsigned shown range

theorem readInteger_eq_ok : readInteger cs = .ok i ↔ Numeral cs i := by
  unfold readInteger
  split
  next =>
    constructor
    · intro refused
      cases refused
    · intro h
      cases h with
      | unsigned shown => exact absurd rfl shown.nonempty
  next cs => rw [readPositive_eq_ok, numeral_plus_iff]
  next =>
    rw [numeral_minus_iff]
    constructor
    · intro refused
      cases refused
    · rintro ⟨n, shown, _⟩
      exact absurd rfl shown.nonempty
  next cs nonempty =>
    rw [numeral_minus_iff]
    simp only [map_eq_ok, bind_eq_ok, readMagnitude_zero_eq_ok nonempty, pure, Except.pure,
      Except.ok.injEq]
    constructor
    · rintro ⟨_, ⟨n, ⟨shown, range⟩, rfl⟩, rfl⟩
      exact ⟨n, shown, range, rfl⟩
    · rintro ⟨n, shown, range, rfl⟩
      exact ⟨n, ⟨n, ⟨shown, range⟩, rfl⟩, rfl⟩
  next nonempty plus lone minus => rw [readPositive_eq_ok, numeral_unsigned_iff plus minus]

end Coupling.Text
