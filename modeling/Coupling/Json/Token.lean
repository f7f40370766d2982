import Coupling.Json.Number
import Coupling.Text.Digit

/-!
# Tokens of JSON text

`tokens` cuts a text into tokens up to the first place that is none, where it puts `Token.bad`.
-/

namespace Coupling.Json

inductive Token where
  | openArray
  | closeArray
  | openObject
  | closeObject
  | comma
  | colon
  /-- No content where the text has half a surrogate pair. -/
  | text (content : Option String)
  | scalar (value : Value)
  | bad

def isSpace (c : Char) : Bool := c = ' ' || c = '\n' || c = '\t' || c = '\r'

def plainEscape? : Char → Option Char
  | '"' => some '"'
  | '\\' => some '\\'
  | '/' => some '/'
  | 'b' => some '\x08'
  | 'f' => some '\x0c'
  | 'n' => some '\n'
  | 'r' => some '\r'
  | 't' => some '\t'
  | _ => none

/-- A character of a text, or a unit of UTF-16 that an escape gives by its number. -/
inductive Piece where
  | char (c : Char)
  | unit (n : Nat)

/-- The pieces up to the closing quote, the latest first, and the text behind it. -/
def textPieces (before : List Piece) : List Char → Option (List Piece × List Char)
  | [] => none
  | '"' :: rest => some (before, rest)
  | '\\' :: 'u' :: a :: b :: c :: d :: rest =>
    match Text.hexNumber? [a, b, c, d] with
    | some n => textPieces (.unit n :: before) rest
    | none => none
  | '\\' :: e :: rest =>
    match plainEscape? e with
    | some c => textPieces (.char c :: before) rest
    | none => none
  | c :: rest => if c.val < 0x20 then none else textPieces (.char c :: before) rest

/-- Joins surrogate pairs; none if half a pair stands alone. -/
def joinUnits (before : List Char) : List Piece → Option (List Char)
  | [] => some before.reverse
  | .char c :: rest => joinUnits (c :: before) rest
  | .unit high :: .unit low :: rest =>
    if 0xd800 ≤ high && high < 0xdc00 then
      if 0xdc00 ≤ low && low < 0xe000 then
        joinUnits (Char.ofNat (0x10000 + (high - 0xd800) * 0x400 + (low - 0xdc00)) :: before) rest
      else none
    else if 0xdc00 ≤ high && high < 0xe000 then none
    else joinUnits (Char.ofNat high :: before) (.unit low :: rest)
  | .unit n :: rest =>
    if 0xd800 ≤ n && n < 0xe000 then none else joinUnits (Char.ofNat n :: before) rest

theorem textPieces_length {before : List Piece} {cs : List Char} {pieces : List Piece}
    {rest : List Char} (h : textPieces before cs = some (pieces, rest)) :
    rest.length < cs.length := by
  fun_induction textPieces before cs with
  | case1 => cases h
  | case2 => cases h; simp
  | case3 _ _ _ _ _ _ _ _ ih => have := ih h; simp only [List.length_cons]; omega
  | case4 => cases h
  | case5 _ _ _ _ _ _ ih => have := ih h; simp only [List.length_cons]; omega
  | case6 => cases h
  | case7 => cases h
  | case8 _ _ _ _ _ _ _ ih => have := ih h; simp only [List.length_cons]; omega

/-- A digit string that is not empty. -/
def digits? (cs : List Char) : Option (List Char × List Char) :=
  match cs.takeWhile Char.isDigit with
  | [] => none
  | digits => some (digits, cs.dropWhile Char.isDigit)

theorem length_dropWhile_le (p : Char → Bool) (cs : List Char) :
    (cs.dropWhile p).length ≤ cs.length :=
  (List.dropWhile_sublist p).length_le

theorem digits?_length {cs digits rest : List Char} (h : digits? cs = some (digits, rest)) :
    rest.length < cs.length := by
  unfold digits? at h
  split at h
  · cases h
  next hd =>
    cases h
    cases cs with
    | nil => simp at hd
    | cons c cs =>
      by_cases hc : c.isDigit = true
      · have := length_dropWhile_le Char.isDigit cs
        simp only [List.dropWhile_cons, hc, ↓reduceIte, List.length_cons]
        omega
      · simp [hc] at hd

def fraction? : List Char → Option (List Char × List Char)
  | '.' :: cs => digits? cs
  | cs => some ([], cs)

def signedDigits? : List Char → Option ((Bool × List Char) × List Char)
  | '-' :: cs => (digits? cs).map fun (digits, rest) => ((true, digits), rest)
  | '+' :: cs => (digits? cs).map fun (digits, rest) => ((false, digits), rest)
  | cs => (digits? cs).map fun (digits, rest) => ((false, digits), rest)

def exponent? : List Char → Option (Option (Bool × List Char) × List Char)
  | 'e' :: cs => (signedDigits? cs).map fun (power, rest) => (some power, rest)
  | 'E' :: cs => (signedDigits? cs).map fun (power, rest) => (some power, rest)
  | cs => some (none, cs)

theorem fraction?_length {cs digits rest : List Char} (h : fraction? cs = some (digits, rest)) :
    rest.length ≤ cs.length := by
  unfold fraction? at h
  split at h
  · have := digits?_length h
    simp only [List.length_cons]
    omega
  · cases h
    exact Nat.le_refl _

theorem signedDigits?_length {cs rest : List Char} {power : Bool × List Char}
    (h : signedDigits? cs = some (power, rest)) : rest.length < cs.length := by
  have shorter : ∀ {negative : Bool} {cs : List Char},
      (digits? cs).map (fun (digits, rest) => ((negative, digits), rest)) = some (power, rest) →
        rest.length < cs.length := by
    intro negative cs h
    obtain ⟨⟨digits, _⟩, hd, he⟩ := Option.map_eq_some_iff.mp h
    cases he
    exact digits?_length hd
  unfold signedDigits? at h
  split at h
  · exact Nat.lt_succ_of_lt (shorter h)
  · exact Nat.lt_succ_of_lt (shorter h)
  · exact shorter h

theorem exponent?_length {cs rest : List Char} {power : Option (Bool × List Char)}
    (h : exponent? cs = some (power, rest)) : rest.length ≤ cs.length := by
  have shorter : ∀ {cs : List Char},
      (signedDigits? cs).map (fun (power, rest) => (some power, rest)) = some (power, rest) →
        rest.length < cs.length := by
    intro cs h
    obtain ⟨⟨signed, _⟩, hd, he⟩ := Option.map_eq_some_iff.mp h
    cases he
    exact signedDigits?_length hd
  unfold exponent? at h
  split at h
  · exact Nat.le_succ_of_le (Nat.le_of_lt (shorter h))
  · exact Nat.le_succ_of_le (Nat.le_of_lt (shorter h))
  · cases h
    exact Nat.le_refl _

/-- An unsigned number literal; a leading zero is not followed by another digit. -/
def unsigned? (negative : Bool) (cs : List Char) : Option (Literal × List Char) :=
  match digits? cs with
  | none => none
  | some (whole, rest) =>
    if whole.head? = some '0' && 1 < whole.length then none
    else
      match fraction? rest with
      | none => none
      | some (fraction, rest) =>
        match exponent? rest with
        | none => none
        | some (exponent, rest) => some (⟨negative, whole, fraction, exponent⟩, rest)

theorem unsigned?_length {negative : Bool} {cs rest : List Char} {l : Literal}
    (h : unsigned? negative cs = some (l, rest)) : rest.length < cs.length := by
  unfold unsigned? at h
  split at h
  · cases h
  next hw =>
    split at h
    · cases h
    · split at h
      · cases h
      next hf =>
        split at h
        · cases h
        next he =>
          cases h
          have := digits?_length hw
          have := fraction?_length hf
          have := exponent?_length he
          omega

/-- The first token and the text behind it; white space has been skipped. -/
def token? : List Char → Option (Token × List Char)
  | '[' :: rest => some (.openArray, rest)
  | ']' :: rest => some (.closeArray, rest)
  | '\x7b' :: rest => some (.openObject, rest)
  | '\x7d' :: rest => some (.closeObject, rest)
  | ',' :: rest => some (.comma, rest)
  | ':' :: rest => some (.colon, rest)
  | 'n' :: 'u' :: 'l' :: 'l' :: rest => some (.scalar .null, rest)
  | 't' :: 'r' :: 'u' :: 'e' :: rest => some (.scalar (.bool true), rest)
  | 'f' :: 'a' :: 'l' :: 's' :: 'e' :: rest => some (.scalar (.bool false), rest)
  | '"' :: rest =>
    (textPieces [] rest).map fun (pieces, rest) =>
      (.text ((joinUnits [] pieces.reverse).map String.ofList), rest)
  | '-' :: rest => (unsigned? true rest).map fun (l, rest) => (.scalar l.value, rest)
  | cs => (unsigned? false cs).map fun (l, rest) => (.scalar l.value, rest)

theorem token?_length {cs rest : List Char} {t : Token} (h : token? cs = some (t, rest)) :
    rest.length < cs.length := by
  unfold token? at h
  split at h <;> try (cases h; simp only [List.length_cons]; omega)
  all_goals
    simp only [Option.map_eq_some_iff, Prod.mk.injEq, Prod.exists] at h
    obtain ⟨_, _, hd, _, rfl⟩ := h
  · have := textPieces_length hd
    simp only [List.length_cons]
    omega
  · have := unsigned?_length hd
    simp only [List.length_cons]
    omega
  · exact unsigned?_length hd

/-- The tokens of the text behind those in `before`, which are reversed. -/
def tokensFrom (before : List Token) (cs : List Char) : List Token :=
  match hs : cs.dropWhile isSpace with
  | [] => before.reverse
  | c :: rest =>
    match ht : token? (c :: rest) with
    | none => (.bad :: before).reverse
    | some (t, rest') =>
      have := token?_length ht
      have := hs ▸ length_dropWhile_le isSpace cs
      tokensFrom (t :: before) rest'
  termination_by cs.length
  decreasing_by omega

def tokens (text : String) : List Token := tokensFrom [] text.toList

end Coupling.Json
