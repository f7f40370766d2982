import Coupling.Decimal.Shortest
import Coupling.Text.Digit
import Coupling.Text.Parser
import Coupling.Toml.Value

/-!
# Scalars of TOML
-/

namespace Coupling.Toml

open Text (Parser)
open Text.Parser

/-! ## Numbers -/

/-- Digits in which each underscore stands between two digits. -/
def isGrouped : List Char → Bool
  | [] => false
  | '_' :: _ => false
  | _ :: '_' :: rest => isGrouped rest
  | [_] => true
  | _ :: rest => isGrouped rest

def digitGroups (base : Nat) : Parser (List Char) := do
  let cs ← takeWhile fun c => Text.isDigitIn base c || c = '_'
  guard (isGrouped cs)
  return cs.filter (· ≠ '_')

/-- A sign, true for minus. -/
def sign : Parser Bool :=
  (do char '-'; return true) <|> (do char '+'; return false) <|> return false

def signed (negative : Bool) (magnitude : Nat) : Int := if negative then -magnitude else magnitude

/-- Digits without a leading zero. -/
def wholeDigits : Parser (List Char) := do
  let digits ← digitGroups 10
  guard (digits.length = 1 || digits.head? ≠ some '0')
  return digits

def basedInteger (mark : Char) (base : Nat) : Parser Int := do
  char '0'
  char mark
  return Text.numberIn base (← digitGroups base)

def decimalInteger : Parser Int := do
  return signed (← sign) (Text.numberIn 10 (← wholeDigits))

/-- Integers have 64 bits. -/
def integer : Parser Int := do
  let i ← basedInteger 'x' 16 <|> basedInteger 'o' 8 <|> basedInteger 'b' 2 <|> decimalInteger
  guard (-0x8000000000000000 ≤ i && i < 0x8000000000000000)
  return i

/-- The least number that rounds to no finite double. -/
def leastOverflow : Nat := Decimal.power 2 1024 - Decimal.power 2 970

/-- Whether `digits * 10 ^ exponent` is too large for a double; it has 309 digits if it is about
as large as the largest. -/
def overflows (digits : Nat) (exponent : Int) : Bool :=
  let point := Decimal.digitCount digits + exponent
  digits ≠ 0 && (309 < point || (point = 309 &&
    leastOverflow * Decimal.power 10 (-exponent) ≤ digits * Decimal.power 10 exponent))

def fraction : Parser (List Char) := do
  char '.'
  digitGroups 10

def exponent : Parser Int := do
  char 'e' <|> char 'E'
  return signed (← sign) (Text.numberIn 10 (← digitGroups 10))

/-- A fraction, an exponent or both make a number a float. It may be too small for a double but not
too large. -/
def decimalFloat : Parser Float := do
  let negative ← sign
  let whole ← wholeDigits
  let fraction ← optional fraction
  let exponent ← optional exponent
  guard (fraction.isSome || exponent.isSome)
  let places := fraction.getD []
  let digits := Text.numberIn 10 (whole ++ places)
  let exponent := exponent.getD 0 - places.length
  guard (negative || !overflows digits exponent)
  return .decimal negative digits exponent

def specialFloat : Parser Float := do
  let negative ← sign
  (do word "inf"; return .infinity negative) <|> (do word "nan"; return .nan)

/-! ## Dates and times -/

def digits (n : Nat) : Parser Nat := do
  let cs ← take n
  guard (cs.all Char.isDigit)
  return Text.numberIn 10 cs

def isLeapYear (year : Nat) : Bool := year % 4 = 0 && (year % 100 ≠ 0 || year % 400 = 0)

def daysIn (year month : Nat) : Nat :=
  if month = 2 then if isLeapYear year then 29 else 28
  else if month ∈ [4, 6, 9, 11] then 30
  else 31

def date : Parser Date := do
  let year ← digits 4
  char '-'
  let month ← digits 2
  char '-'
  let day ← digits 2
  guard (1 ≤ month && month ≤ 12 && 1 ≤ day && day ≤ daysIn year month)
  return { year, month, day }

/-- There may be a leap second. -/
def time : Parser Time := do
  let hour ← digits 2
  char ':'
  let minute ← digits 2
  char ':'
  let second ← digits 2
  guard (hour ≤ 23 && minute ≤ 59 && second ≤ 60)
  let fraction ← (do
    char '.'
    let places ← takeWhile Char.isDigit
    guard !places.isEmpty
    return places) <|> return []
  return { hour, minute, second, fraction }

def offset : Parser Int :=
  (do char 'Z' <|> char 'z'; return 0) <|> do
    let negative ← (do char '-'; return true) <|> (do char '+'; return false)
    let hour ← digits 2
    char ':'
    let minute ← digits 2
    guard (hour ≤ 23 && minute ≤ 59)
    return signed negative (60 * hour + minute)

def moment : Parser Moment :=
  (do
    let date ← date
    (do
      char 'T' <|> char 't' <|> char ' '
      let time ← time
      return .both date time (← optional offset)) <|> return .date date)
  <|> Moment.time <$> time

/-! ## Texts -/

/-- Control characters other than the tab stand neither in texts nor in comments. -/
def isPlain (c : Char) : Bool := c = '\t' || (0x20 ≤ c.toNat && c.toNat ≠ 0x7f)

def isSpace (c : Char) : Bool := c = ' ' || c = '\t'

def newlineFrom (c : Char) : Parser Unit :=
  if c = '\r' then char '\n' else guard (c = '\n')

def newline : Parser Unit := do newlineFrom (← next)

/-- A character by its number in `n` hexadecimal digits. -/
def numbered (n : Nat) : Parser Char := do
  match Text.hexNumber? (← take n) with
  | some code => if code.isValidChar then return Char.ofNat code else failure
  | none => failure

/-- What stands behind a backslash. -/
def escape : Parser Char := do
  match ← next with
  | '"' => return '"'
  | '\\' => return '\\'
  | 'b' => return '\x08'
  | 'f' => return '\x0c'
  | 'n' => return '\n'
  | 'r' => return '\r'
  | 't' => return '\t'
  | 'u' => numbered 4
  | 'U' => numbered 8
  | _ => failure

def basicText : Parser String := do
  char '"'
  let cs ← many fun c =>
    if c = '\\' then escape
    else do
      guard (isPlain c && c ≠ '"')
      return c
  char '"'
  return String.ofList cs

def literalText : Parser String := do
  char '\''
  let cs ← takeWhile fun c => isPlain c && c ≠ '\''
  char '\''
  return String.ofList cs

/-- A line break behind a backslash goes with all white space that follows it. -/
def continuedLine : Parser Unit := do
  let _ ← takeWhile isSpace
  newline
  let _ ← many fun c => guard (isSpace c) <|> newlineFrom c

/-- Three quotes open and close; what stands in between may end in one or two quotes more, and a
line break directly behind the opening is dropped. `plain` reads what is not special. -/
def blockText (quote : Char) (plain : Char → Parser (List Char)) : Parser String := do
  let quotes := List.replicate 3 quote
  quotes.forM char
  let _ ← optional newline
  let pieces ← many fun c =>
    if c = '\r' || c = '\n' then do newlineFrom c; return ['\n']
    else if c = quote then do
      guard ((← remaining).take 2 ≠ quotes.take 2)
      return [c]
    else plain c
  let closing ← takeWhile (· = quote)
  guard (3 ≤ closing.length && closing.length ≤ 5)
  return String.ofList (pieces.flatten ++ closing.drop 3)

def plainPiece (c : Char) : Parser (List Char) := do
  guard (isPlain c)
  return [c]

def text : Parser String :=
  blockText '"' (fun c =>
    if c = '\\' then (do return [← escape]) <|> (do continuedLine; return []) else plainPiece c)
  <|> blockText '\'' plainPiece <|> basicText <|> literalText

def boolean : Parser Bool := (do word "true"; return true) <|> (do word "false"; return false)

def scalar : Parser Value :=
  Value.text <$> text <|> Value.boolean <$> boolean <|> Value.moment <$> moment
    <|> Value.float <$> (specialFloat <|> decimalFloat) <|> Value.integer <$> integer

end Coupling.Toml
