import NestedWords.Toml.Reader

/-!
# Reading TOML: texts and keys

A text stands between double quotes, where a backslash starts an escape, or between single
quotes, where every character stands for itself. Three quotes at both ends let it go over
several lines. A key is a text on one line or a bare word, and dots join keys to a path.
-/
namespace NestedWords.Toml

/-! ## Escapes -/

/-- A character given by its code in hexadecimal digits. -/
def coded (digits : Nat) : Reader Char := do
  let code := Text.ofDigits 16 (← exactly (take (Text.digit? 16)) digits)
  if code.isValidChar then return Char.ofNat code else failure

/-- The character that a letter after a backslash stands for. -/
def plainEscape : Char → Option Char
  | '"' => some '"'
  | '\\' => some '\\'
  | 'b' => some '\x08'
  | 'f' => some '\x0c'
  | 'n' => some '\n'
  | 'r' => some '\r'
  | 't' => some '\t'
  | _ => none

def escaped : Reader Char := do
  char '\\'
  take plainEscape <|> (do char 'u'; coded 4) <|> (do char 'U'; coded 8)

/-! ## Texts on one line -/

/-- A character that stands for itself between double quotes. -/
def basicChar : Reader Char := one fun c => isPrintable c && c != '"' && c != '\\'

def basicText : Reader String := do
  char '"'
  let cs ← many (basicChar <|> escaped)
  char '"'
  return String.ofList cs

/-- A character between single quotes. -/
def literalChar : Reader Char := one fun c => isPrintable c && c != '\''

def literalText : Reader String := do
  char '\''
  let cs ← many literalChar
  char '\''
  return String.ofList cs

/-! ## Texts on several lines -/

/-- A line break inside a text, which reads the same in both spellings. -/
def innerBreak : Reader (List Char) := do
  lineBreak
  return ['\n']

/-- A backslash at the end of a line: it takes the line break, and all blanks and line
breaks after it, out of the text. -/
def joinedLines : Reader (List Char) := do
  char '\\'
  blanks
  lineBreak
  let _ ← many (discard (one isBlank) <|> lineBreak)
  return []

/-- The rest of a text that ends in three quotes. Fewer quotes belong to the text, also up
to two right before the end. -/
def longRest (quote : Char) (piece : Reader (List Char)) : Nat → Reader (List Char)
  | 0 => failure
  | fuel + 1 => do
    let quotes ← span (· == quote)
    if 5 < quotes.length then failure
    if 3 ≤ quotes.length then return quotes.drop 3
    let cs ← piece
    return quotes ++ cs ++ (← longRest quote piece fuel)

/-- A text between three quotes on each side; a line break right behind the first three is
not part of it. -/
def longText (quote : Char) (piece : Reader (List Char)) : Reader String := do
  word [quote, quote, quote]
  let _ ← optional lineBreak
  return String.ofList (← longRest quote piece ((← get).length + 1))

def longBasicText : Reader String :=
  longText '"' ((return [← basicChar]) <|> joinedLines <|> (return [← escaped]) <|> innerBreak)

def longLiteralText : Reader String :=
  longText '\'' ((return [← literalChar]) <|> innerBreak)

def text : Reader String := longBasicText <|> basicText <|> longLiteralText <|> literalText

/-! ## Keys -/

/-- The keys from a table to what is defined in it. -/
abbrev Path := List String

def isBare (c : Char) : Bool := c.isAlphanum || c == '-' || c == '_'

def bareKey : Reader String := do
  let cs ← span isBare
  if cs.isEmpty then failure
  return String.ofList cs

def key : Reader String := do
  blanks
  let k ← basicText <|> literalText <|> bareKey
  blanks
  return k

/-- Nothing nests this deep. -/
def depthLimit : Nat := 128

def path : Reader Path := do
  let keys ← separated key '.'
  if depthLimit ≤ keys.length then failure
  return keys

end NestedWords.Toml
