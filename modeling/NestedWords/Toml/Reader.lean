import NestedWords.Text.Digit

/-!
# Reading TOML: characters

A `Reader` takes characters from the front of a document or refuses it. Of two alternatives,
the second starts where the first did.
-/
namespace NestedWords.Toml

/-- Reads from the front of a list of characters. -/
abbrev Reader (α : Type) : Type := StateT (List Char) Option α

/-- The next character, which is left where it is. -/
def peek : Reader (Option Char) := return (← get).head?

/-- The next character, turned into what it stands for. -/
def take {α : Type} (meaning : Char → Option α) : Reader α := do
  match ← get with
  | [] => failure
  | c :: rest =>
    match meaning c with
    | none => failure
    | some a =>
      set rest
      return a

/-- The next character, which must be of a kind. -/
def one (kind : Char → Bool) : Reader Char := take fun c => if kind c then some c else none

def char (c : Char) : Reader Unit := discard (one (· == c))

/-- The given characters in their order. -/
def word (cs : List Char) : Reader Unit := cs.forM char

/-- The characters of a kind up to the first that is none. -/
def span (kind : Char → Bool) : Reader (List Char) := do
  let (taken, rest) := (← get).span kind
  set rest
  return taken

/-! ## Repetition -/

def exactly {α : Type} (r : Reader α) : Nat → Reader (List α)
  | 0 => return []
  | n + 1 => do
    let a ← r
    return a :: (← exactly r n)

def atMost {α : Type} (r : Reader α) : Nat → Reader (List α)
  | 0 => return []
  | n + 1 => do
    match ← optional r with
    | none => return []
    | some a => return a :: (← atMost r n)

/-- As many as there are. Each takes at least one character. -/
def many {α : Type} (r : Reader α) : Reader (List α) := do atMost r (← get).length

/-- One or more with a separator between them. -/
def separated {α : Type} (r : Reader α) (separator : Char) : Reader (List α) := do
  let a ← r
  return a :: (← many do
    char separator
    r)

/-! ## Between the parts of a document -/

def isBlank (c : Char) : Bool := c == ' ' || c == '\t'

/-- Controls other than the tab stand neither in texts nor in comments. -/
def isPrintable (c : Char) : Bool := c == '\t' || (' ' ≤ c && c != '\x7f')

def blanks : Reader Unit := discard (span isBlank)

def lineBreak : Reader Unit := char '\n' <|> word ['\r', '\n']

def comment : Reader Unit := do
  char '#'
  discard (span isPrintable)

def endOfText : Reader Unit := do
  if (← peek).isSome then failure

/-- What may follow on a line that is complete. -/
def endOfLine : Reader Unit := do
  blanks
  let _ ← optional comment
  lineBreak <|> endOfText

/-- Blanks, comments and line breaks, which may stand between the elements of an array. -/
def gap : Reader Unit :=
  discard (many (discard (one isBlank) <|> lineBreak <|> comment))

end NestedWords.Toml
