import NestedWords.Json.Problem
import NestedWords.Lists
import NestedWords.Text.Digit

/-!
# Reading JSON

A `Reader` takes characters from the front of a document. There is no tree in between:
whoever knows what should come next asks for it, and where something else stands, `refuse`
reads just enough of it to say what it is.
-/
namespace NestedWords.Json

/-- Reads from the front of a list of characters. -/
abbrev Reader (α : Type) : Type := StateT (List Char) (Except Problem) α

def fail {α : Type} (p : Problem) : Reader α := throw p

/-- Reports a value that does not fit. -/
def misfit {α : Type} (m : Mismatch) : Reader α := throw (.mismatch m)

/-- Blanks, tabs and line ends may stand between the parts of a document. -/
def isBlank (c : Char) : Bool := c == ' ' || c == '\t' || c == '\n' || c == '\r'

/-- The next character, which is left where it is. -/
def peek : Reader (Option Char) := return (← get).head?

def skip : Reader Unit := modify (·.drop 1)

/-- Skips blanks and looks at what follows. -/
def peekPart : Reader (Option Char) := do
  modify (·.dropWhile isBlank)
  peek

/-! ## Strings -/

/-- Four hexadecimal digits. With fewer than four bytes left, the string has ended early. -/
def hex4 : Reader Nat := do
  let digits := (← get).take 4
  if total Char.utf8Size digits < 4 then fail (.endOf .string)
  match digits.mapM (Text.digit? 16) with
  | none => fail .invalidEscape
  | some ds =>
    modify (·.drop 4)
    return Text.ofDigits 16 ds

/-- Takes a character inside a string, which must not end before it. -/
def within : Reader Char := do
  match ← peek with
  | none => fail (.endOf .string)
  | some c =>
    skip
    return c

/-- The second half of a pair of escapes that make one character. -/
def lowSurrogate : Reader Nat := do
  if (← within) != '\\' then fail .unpairedSurrogate
  if (← within) != 'u' then fail .unpairedSurrogate
  let low ← hex4
  if low < 0xdc00 || 0xdfff < low then fail .loneSurrogate
  return low

/-- A character given by its code, in one or two escapes. -/
def codeEscape : Reader Char := do
  let code ← hex4
  if 0xdc00 ≤ code && code ≤ 0xdfff then fail .loneSurrogate
  if 0xd800 ≤ code && code ≤ 0xdbff then
    let low ← lowSurrogate
    return Char.ofNat (0x10000 + (code - 0xd800) * 0x400 + (low - 0xdc00))
  return Char.ofNat code

/-- The character that a letter after a backslash stands for. -/
def plainEscape : Char → Option Char
  | '"' => some '"'
  | '\\' => some '\\'
  | '/' => some '/'
  | 'b' => some '\x08'
  | 'f' => some '\x0c'
  | 'n' => some '\n'
  | 'r' => some '\r'
  | 't' => some '\t'
  | _ => none

def escape : Reader Char := do
  match ← within with
  | 'u' => codeEscape
  | c =>
    match plainEscape c with
    | some c => return c
    | none => fail .invalidEscape

/-- The rest of a string, whose characters so far are given in reverse. Each turn takes at
least one character, so `fuel` need not exceed what is left of the document. -/
def stringRest : Nat → List Char → Reader String
  | 0, _ => fail (.endOf .string)
  | fuel + 1, sofar => do
    match ← within with
    | '"' => return String.ofList sofar.reverse
    | '\\' => stringRest fuel ((← escape) :: sofar)
    | c => if c.toNat < 0x20 then fail .controlCharacter else stringRest fuel (c :: sofar)

/-- A string whose opening quote is next. -/
def string : Reader String := do
  skip
  stringRest ((← get).length + 1) []

/-! ## Numbers -/

def digits : Reader (List Nat) := do
  let ds := (← get).takeWhile Char.isDigit
  modify (·.drop ds.length)
  return ds.map fun c => c.toNat - '0'.toNat

/-- Digits of which at least one must be there. -/
def someDigits : Reader (List Nat) := do
  match ← digits with
  | [] => if (← peek).isNone then fail (.endOf .value) else fail .invalidNumber
  | ds => return ds

/-- The digits before the point, with no zero in front of others. -/
def wholeDigits : Reader (List Nat) := do
  match ← someDigits with
  | 0 :: _ :: _ => fail .invalidNumber
  | ds => return ds

/-- The digits behind a point, if there is one. -/
def fractionDigits : Reader (Option (List Nat)) := do
  if (← peek) != some '.' then return none
  skip
  return some (← someDigits)

/-- The exponent, if there is one. -/
def exponent : Reader (Option Int) := do
  match ← peek with
  | some 'e' | some 'E' =>
    skip
    let sign ← peek
    if sign == some '+' || sign == some '-' then skip
    let n := Text.ofDigits 10 (← someDigits)
    return some (if sign == some '-' then -(n : Int) else n)
  | _ => return none

/-- The greatest integer that is read exactly. -/
def maxInteger : Nat := UInt64.size - 1

/-- Appends digits to a number until one no longer fits; answers with the rest. -/
def absorb : Nat → List Nat → Nat × List Nat
  | n, [] => (n, [])
  | n, d :: ds => if 10 * n + d ≤ maxInteger then absorb (10 * n + d) ds else (n, d :: ds)

/-- `f * 10 ^ e`, in steps of at most 308 places. -/
def scaled : Nat → Float → Int → Reader Float
  | 0, f, _ => return f
  | fuel + 1, f, e =>
    if e.natAbs ≤ 308 then
      let power := Float.ofScientific 1 false e.natAbs
      if 0 ≤ e then
        let g := f * power
        if g.isInf then fail .numberOutOfRange else return g
      else return f / power
    else if f == 0 then return f
    else if 0 ≤ e then fail .numberOutOfRange
    else scaled fuel (f / 1e308) (e + 308)

/-- A number with a fraction, an exponent or too many digits: the leading digits as an
integer, times a power of ten. Digits that do not fit only count as places. -/
def approximate (whole fraction : List Nat) (e : Int) : Reader Float := do
  let (n, dropped) := absorb 0 whole
  let (n, ignored) := absorb n fraction
  let places := fraction.length - ignored.length
  scaled 8 (Float.ofScientific n false 0) (dropped.length - places + e)

/-- A number behind its sign. -/
def number (negative : Bool) : Reader Found := do
  let whole ← wholeDigits
  let fraction ← fractionDigits
  let e ← exponent
  let n := Text.ofDigits 10 whole
  if fraction.isNone && e.isNone && !negative && n ≤ maxInteger then
    return .integer n
  else if fraction.isNone && e.isNone && negative && 0 < n && Int64.minValue.toInt ≤ -(n : Int) then
    return .integer (-(n : Int))
  else
    let f ← approximate whole (fraction.getD []) (e.getD 0)
    return .floating (if negative then -f else f)

/-- A number whose first character, a sign or a digit, is next. -/
def signedNumber : Reader Found := do
  if (← peek) == some '-' then
    skip
    number true
  else number false

/-! ## Other values -/

/-- The rest of a word. -/
def word : List Char → Reader Unit
  | [] => return
  | c :: cs => do
    match ← peek with
    | none => fail (.endOf .value)
    | some d =>
      if d != c then fail .expectedIdent
      skip
      word cs

/-- Reads as much of a value as it takes to say what it is. -/
def found : Reader Found := do
  match ← peek with
  | some 'n' => do
    skip
    word ['u', 'l', 'l']
    return .null
  | some 't' => do
    skip
    word ['r', 'u', 'e']
    return .boolean true
  | some 'f' => do
    skip
    word ['a', 'l', 's', 'e']
    return .boolean false
  | some '"' => return .text (← string)
  | some '[' => return .sequence
  | some '\x7b' => return .map
  | some c => if c == '-' || c.isDigit then signedNumber else fail .expectedValue
  | none => fail .expectedValue

/-- Reports that something else was expected. -/
def refuse {α : Type} (expected : String) : Reader α := do
  misfit (.wrongType (← found) expected)

/-- Skips blanks before a value, which must follow. -/
def startValue : Reader Char := do
  match ← peekPart with
  | none => fail (.endOf .value)
  | some c => return c

def text : Reader String := do
  if (← startValue) == '"' then string else refuse "a string"

/-- An integer between two bounds, which are those of the type of a name. -/
def integer (low high : Int) (type : String) : Reader Int := do
  let c ← startValue
  if c != '-' && !c.isDigit then refuse type
  match ← signedNumber with
  | .integer n => if low ≤ n ∧ n ≤ high then return n else misfit (.wrongValue (.integer n) type)
  | other => misfit (.wrongType other type)

/-! ## Sequences -/

/-- Another element follows; unless it is the first, a comma stands before it. -/
def hasElement (first : Bool) : Reader Bool := do
  match ← peekPart with
  | none => fail (.endOf .list)
  | some ']' => return false
  | some c =>
    if first then return true
    if c != ',' then fail .expectedListEnd
    skip
    match ← peekPart with
    | none => fail (.endOf .value)
    | some ']' => fail .trailingComma
    | some _ => return true

/-- The closing bracket, once no more elements are wanted. -/
def endSequence : Reader Unit := do
  match ← peekPart with
  | none => fail (.endOf .list)
  | some ']' => skip
  | some ',' =>
    skip
    if (← peekPart) == some ']' then fail .trailingComma else fail .trailingCharacters
  | some _ => fail .trailingCharacters

/-- The elements of a sequence. Each takes at least one character. -/
def elements {α : Type} (element : Reader α) : Nat → Bool → Reader (List α)
  | 0, _ => fail (.endOf .list)
  | fuel + 1, first => do
    if ← hasElement first then
      let a ← element
      return a :: (← elements element fuel false)
    else return []

/-- Something in brackets. -/
def bracketed {α : Type} (expected : String) (body : Reader α) : Reader α := do
  if (← startValue) != '[' then refuse expected
  skip
  let a ← body
  endSequence
  return a

def sequence {α : Type} (element : Reader α) : Reader (List α) := do
  bracketed "a sequence" (elements element ((← get).length + 1) true)

/-- One component of a tuple of `size`, before which `index` others have been read. -/
def component {α : Type} (size index : Nat) (element : Reader α) : Reader α := do
  if ← hasElement (index == 0) then element
  else misfit (.wrongLength index ("a tuple of size " ++ toString size))

def triple {α β γ : Type} (a : Reader α) (b : Reader β) (c : Reader γ) : Reader (α × β × γ) :=
  bracketed "a tuple of size 3" do
    return (← component 3 0 a, ← component 3 1 b, ← component 3 2 c)

def quadruple {α β γ δ : Type} (a : Reader α) (b : Reader β) (c : Reader γ) (d : Reader δ) :
    Reader (α × β × γ × δ) :=
  bracketed "a tuple of size 4" do
    return (← component 4 0 a, ← component 4 1 b, ← component 4 2 c, ← component 4 3 d)

/-! ## Objects -/

/-- Another key follows; its opening quote is next. -/
def hasKey (first : Bool) : Reader Bool := do
  match ← peekPart with
  | none => fail (.endOf .object)
  | some '\x7d' => return false
  | some c =>
    if first then
      if c == '"' then return true else fail .keyNotString
    if c != ',' then fail .expectedObjectEnd
    skip
    match ← peekPart with
    | none => fail (.endOf .value)
    | some '"' => return true
    | some '\x7d' => fail .trailingComma
    | some _ => fail .keyNotString

def colon : Reader Unit := do
  match ← peekPart with
  | none => fail (.endOf .object)
  | some ':' => skip
  | some _ => fail .expectedColon

/-- Nothing but blanks may follow a document. -/
def endDocument : Reader Unit := do
  if (← peekPart).isSome then fail .trailingCharacters

/-- Reads a whole document. -/
def document {α : Type} (r : Reader α) (s : String) : Except Problem α :=
  (do
    let a ← r
    endDocument
    return a : Reader α).run' s.toList

end NestedWords.Json
