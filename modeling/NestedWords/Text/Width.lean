import NestedWords.Text.Columns
import NestedWords.Text.Ligature
import NestedWords.Text.Picture

/-!
# Display width

How many columns of a terminal a line takes. Mostly these are the columns of its characters,
but pictures, flags and some letters join into one sign. A line is read from its end: what
has been read offers the character before it something to join (`Follower`), and `addBefore`
says how many columns that character adds.
-/
namespace NestedWords.Text

/-- The sign between characters that are to be drawn as one. -/
def joiner : Char := '\u200d'

/-- Half a flag: two letters name a country. -/
def isFlagLetter (c : Char) : Bool := isBetween 0x1f1e6 0x1f1ff c

/-- The colour of the skin in the picture before it. -/
def isSkinTone (c : Char) : Bool := isBetween 0x1f3fb 0x1f3ff c

/-- A letter in the name of the region of a flag. -/
def isTagLetter (c : Char) : Bool := isBetween 0xe0061 0xe007a c

/-- A digit in the name of the region of a flag. -/
def isTagDigit (c : Char) : Bool := isBetween 0xe0030 0xe0039 c

/-- The end of the name of a region. -/
def isTagEnd (c : Char) : Bool := c.toNat == 0xe007f

/-- The flag that takes the name of a region. -/
def isBlankFlag (c : Char) : Bool := c.toNat == 0x1f3f4

/-- What the rest of a line offers the character before it. What is joined is to be drawn as
one with a picture behind a joiner. -/
inductive Follower
  | nothing
  | skinTone
  | flagLetter
  /-- Two letters of flags, or more. -/
  | flagLetters
  | picture
  /-- The joiner in front of a picture. -/
  | joinedPicture
  | joinedKeycap
  | joinedFlagLetter
  /-- An even number of letters of flags. -/
  | joinedFlag
  /-- An odd number of them, more than one. -/
  | joinedFlagAndLetter
  /-- The last letters of the name of a region. -/
  | joinedTagLetters (n : Nat)
  /-- The digits before those letters. -/
  | joinedTagDigits (n : Nat)
  | letter (l : Joining)
  deriving DecidableEq, Repr

namespace Follower

/-- What a character offers when it joins nothing. -/
def ofChar (c : Char) : Follower :=
  if isSkinTone c then skinTone
  else if isFlagLetter c then flagLetter
  else if Text.picture.contains c then picture
  else match Joining.ofChar? c with
    | some l => letter l
    | none => nothing

/-- A picture in front of the joiner of another. -/
def joined (c : Char) : Option (Int × Follower) :=
  if c == joiner then some (0, joinedPicture) else none

/-- The columns that a character adds and what the two offer together, if it joins. A flag
whose second letter is found after its first gives back what the first took. -/
def join : Follower → Char → Option (Int × Follower)
  | nothing, _ | joinedKeycap, _ => none
  | picture, c => joined c
  | skinTone, c => if takesSkinTone.contains c then some (0, picture) else joined c
  | flagLetter, c => if isFlagLetter c then some (1, flagLetters) else none
  | flagLetters, c => if isFlagLetter c then some (1, flagLetters) else joined c
  | joinedPicture, c =>
    if c == '\u20e3' then some (0, joinedKeycap)
    else if isFlagLetter c then some (1, joinedFlagLetter)
    else if isSkinTone c then some (0, skinTone)
    else if isTagEnd c then some (0, joinedTagLetters 0)
    else if Text.picture.contains c then some (0, picture)
    else none
  | joinedFlagLetter, c => if isFlagLetter c then some (-1, joinedFlag) else none
  | joinedFlag, c => if isFlagLetter c then some (3, joinedFlagAndLetter) else joined c
  | joinedFlagAndLetter, c => if isFlagLetter c then some (-1, joinedFlag) else joined c
  | joinedTagLetters n, c =>
    if isTagLetter c && n < 6 then some (0, joinedTagLetters (n + 1))
    else if isTagDigit c && n ≤ 4 then some (0, joinedTagDigits 1)
    else if isBlankFlag c && 3 ≤ n then some (0, picture)
    else none
  | joinedTagDigits n, c =>
    if isTagDigit c && n < 3 then some (0, joinedTagDigits (n + 1))
    else if isBlankFlag c && n == 3 then some (0, picture)
    else none
  | letter l, c => (l.join c).map fun (n, l) => (n, (l.map letter).getD nothing)

/-- The picture behind a joiner takes a character that is asked to be a picture. -/
def takesPicture (f : Follower) : Bool := f == joinedPicture || f == joinedKeycap

def isLetter : Follower → Bool
  | letter _ => true
  | _ => false

end Follower

/-- How a character is asked to be drawn. -/
inductive Presentation
  | sign
  | picture
  deriving DecidableEq, Repr

/-- The rest of a line, as seen from the character before it. -/
structure Right where
  follower : Follower := .nothing
  /-- What is asked of that character. -/
  presentation : Option Presentation := none
  deriving DecidableEq, Repr

namespace Right

/-- What is left for a character that cannot be drawn as asked: letters still join it. -/
def rest (r : Right) : Follower :=
  if r.presentation.isNone || r.follower.isLetter then r.follower else .nothing

/-- Asks the character before for a presentation. -/
def ask (f : Follower) (p : Presentation) : Right where
  follower := if f.isLetter || (p = .picture && f.takesPicture) then f else .nothing
  presentation := some p

end Right

/-- The columns that a character adds in front of the rest of a line. -/
def addBefore (c : Char) (r : Right) : Int × Right :=
  if r.presentation = some .picture && canBePicture.contains c then
    (if r.follower.takesPicture then 0 else 2, { follower := .picture })
  else if c ≤ '\u00a0' then (1, {})
  else if c == '\ufe0f' then (0, .ask r.rest .picture)
  else if c == '\ufe0e' then (0, .ask r.rest .sign)
  else if r.presentation = some .sign && canBeSign.contains c then (1, {})
  else
    match r.rest.join c with
    | some (n, f) => (n, { follower := f })
    | none => (columns c, { follower := .ofChar c })

/-- The columns of the characters of a line and what they offer to one before them. -/
def measure : List Char → Int × Right
  | [] => (0, {})
  | c :: cs =>
    let (n, r) := measure cs
    let (added, r) := addBefore c r
    (n + added, r)

def width (line : String) : Nat := (measure line.toList).1.toNat

/-- Fills a text with spaces on the right. -/
def padRight (columns : Nat) (s : String) : String :=
  s ++ String.ofList (List.replicate (columns - width s) ' ')

end NestedWords.Text
