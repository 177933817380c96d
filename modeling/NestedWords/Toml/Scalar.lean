import NestedWords.Toml.Text
import NestedWords.Decimal.Nearest
import NestedWords.Mismatch

/-!
# Reading TOML: numbers, dates and times

Integers have 64 bits with a sign and may be written in four bases. Dates and times are
checked, but not kept: nothing asks for one.
-/
namespace NestedWords.Toml

/-! ## Numbers -/

def digit (base : Nat) : Reader Nat := take (Text.digit? base)

/-- Digits with single underscores between them. -/
def grouped (base : Nat) : Reader (List Nat) := do
  let d ← digit base
  return d :: (← many (digit base <|> (do char '_'; digit base)))

/-- Whether a number is negative. -/
def sign : Reader Bool := do
  match ← peek with
  | some '-' => do
    char '-'
    return true
  | some '+' => do
    char '+'
    return false
  | _ => return false

/-- Decimal digits, with no zero in front of others. -/
def wholeDigits : Reader (List Nat) := do
  if (← peek) == some '0' then
    char '0'
    return [0]
  else grouped 10

def signed (negative : Bool) (n : Nat) : Int := if negative then -(n : Int) else n

def exponent : Reader Int := do
  let _ ← one fun c => c == 'e' || c == 'E'
  let negative ← sign
  return signed negative (Text.ofDigits 10 (← grouped 10))

/-- A number with a fraction or an exponent. One that is too large is refused, unless it is
negative. -/
def decimal : Reader Float := do
  let negative ← sign
  let whole ← wholeDigits
  let fraction ← optional do
    char '.'
    grouped 10
  let e ← if fraction.isSome then optional exponent else some <$> exponent
  let places := fraction.getD []
  let x :=
    Decimal.nearest (Text.ofDigits 10 (whole ++ places)) (e.getD 0 - places.length)
  if negative then return -x
  if x.isInf then failure
  return x

/-- Infinity, or what is no number. -/
def special : Reader Float := do
  let negative ← sign
  let x ← (do word ['i', 'n', 'f']; return 1 / 0) <|> (do word ['n', 'a', 'n']; return 0 / 0)
  return if negative then -x else x

/-- Digits behind a zero and the letter of their base. -/
def based (letter : Char) (base : Nat) : Reader Int := do
  word ['0', letter]
  return Text.ofDigits base (← grouped base)

def integer : Reader Int := do
  let n ← based 'x' 16 <|> based 'o' 8 <|> based 'b' 2 <|> (do
    let negative ← sign
    return signed negative (Text.ofDigits 10 (← wholeDigits)))
  if Int64.minValue.toInt ≤ n ∧ n ≤ Int64.maxValue.toInt then return n else failure

/-! ## Dates and times -/

/-- A number of fixed width between two bounds. -/
def between (width low high : Nat) : Reader Nat := do
  let n := Text.ofDigits 10 (← exactly (digit 10) width)
  if n < low || high < n then failure
  return n

def isLeapYear (year : Nat) : Bool :=
  year % 4 == 0 && (year % 100 != 0 || year % 400 == 0)

def daysIn (year month : Nat) : Nat :=
  if month == 2 then if isLeapYear year then 29 else 28
  else if [4, 6, 9, 11].contains month then 30
  else 31

def date : Reader Unit := do
  let year ← between 4 0 9999
  char '-'
  let month ← between 2 1 12
  char '-'
  discard (between 2 1 (daysIn year month))

/-- A time of day, with room for a leap second. -/
def time : Reader Unit := do
  discard (between 2 0 23)
  char ':'
  discard (between 2 0 59)
  char ':'
  discard (between 2 0 60)
  let _ ← optional do
    char '.'
    let _ ← digit 10
    many (digit 10)

def zoneOffset : Reader Unit :=
  discard (one fun c => c == 'Z' || c == 'z') <|> (do
    let _ ← one fun c => c == '+' || c == '-'
    discard (between 2 0 23)
    char ':'
    discard (between 2 0 59))

def dateTime : Reader Unit :=
  (do
    date
    let _ ← optional do
      let _ ← one fun c => c == 'T' || c == 't' || c == ' '
      time
      optional zoneOffset)
  <|> time

/-! ## Scalars -/

def boolean : Reader Bool :=
  (do word ['t', 'r', 'u', 'e']; return true)
  <|> (do word ['f', 'a', 'l', 's', 'e']; return false)

/-- A value without parts. A date or a time counts as a table. -/
def scalar : Reader Found :=
  (return .text (← text))
  <|> (return .boolean (← boolean))
  <|> (do dateTime; return .map)
  <|> (return .floating (← decimal))
  <|> (return .floating (← special))
  <|> (return .integer (← integer))

end NestedWords.Toml
