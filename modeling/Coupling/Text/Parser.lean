/-!
# Parsers

A parser reads from the front of a text or fails. Its type says that the rest is no longer than the
text, so that `many`, which takes a character in each round, comes to an end.
-/

namespace Coupling.Text

/-- What has been read from the front of a text, and what is left. -/
structure Read (α : Type) (cs : List Char) where
  value : α
  rest : List Char
  rest_le : rest.length ≤ cs.length

def Parser (α : Type) : Type := (cs : List Char) → Option (Read α cs)

namespace Parser

variable {α β : Type}

protected def pure (a : α) : Parser α := fun cs => some ⟨a, cs, Nat.le_refl _⟩

protected def bind (p : Parser α) (f : α → Parser β) : Parser β := fun cs =>
  match p cs with
  | none => none
  | some ⟨a, rest, le⟩ =>
    match f a rest with
    | none => none
    | some ⟨b, rest', le'⟩ => some ⟨b, rest', Nat.le_trans le' le⟩

instance : Monad Parser where
  pure := Parser.pure
  bind := Parser.bind

/-- The first of two parsers that does not fail. -/
protected def orElse (p : Parser α) (q : Unit → Parser α) : Parser α := fun cs =>
  match p cs with
  | some read => some read
  | none => q () cs

instance : Alternative Parser where
  failure := fun _ => none
  orElse := Parser.orElse

def next : Parser Char
  | [] => none
  | c :: cs => some ⟨c, cs, Nat.le_succ _⟩

/-- The text that is still to be read. -/
def remaining : Parser (List Char) := fun cs => some ⟨cs, cs, Nat.le_refl _⟩

def atEnd : Parser Unit := do guard (← remaining).isEmpty

def char (c : Char) : Parser Unit := do guard ((← next) = c)

def word (w : String) : Parser Unit := w.toList.forM char

def takeWhile (p : Char → Bool) : Parser (List Char) := fun cs =>
  some ⟨cs.takeWhile p, cs.dropWhile p, (List.dropWhile_sublist p).length_le⟩

/-- Exactly `n` characters. -/
def take : Nat → Parser (List Char)
  | 0 => pure []
  | n + 1 => do return (← next) :: (← take n)

/-- Reads on behind what is in `before`, which is reversed. -/
def manyOnto (p : Char → Parser α) {whole : List Char} (before : List α) (cs : List Char)
    (le : cs.length ≤ whole.length) : Read (List α) whole :=
  match cs with
  | [] => ⟨before.reverse, [], le⟩
  | c :: cs =>
    match p c cs with
    | none => ⟨before.reverse, c :: cs, le⟩
    | some ⟨a, rest, le'⟩ =>
      manyOnto p (a :: before) rest (Nat.le_trans (Nat.le_succ_of_le le') le)
  termination_by cs.length
  decreasing_by exact Nat.lt_succ_of_le le'

/-- Takes a character and reads on behind it, until the character or what follows is refused. -/
def many (p : Char → Parser α) : Parser (List α) := fun cs =>
  some (manyOnto p [] cs (Nat.le_refl _))

/-- What the parser reads if it reads the whole text. -/
def run (p : Parser α) (text : String) : Option α :=
  match p text.toList with
  | some ⟨a, [], _⟩ => some a
  | _ => none

end Parser

end Coupling.Text
