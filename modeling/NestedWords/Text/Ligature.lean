import NestedWords.Text.Columns

/-!
# Ligatures

Letters that are drawn as one sign with a letter before them. A ligature is found from its
end: a last letter waits for those that it joins, and marks that show nothing may stand
between them. Some ligatures need a joiner.
-/
namespace NestedWords.Text

def isBetween (low high : Nat) (c : Char) : Bool := low ≤ c.toNat && c.toNat ≤ high

/-! ## Letters -/

/-- An alef in one of its forms, which a lam before it takes up. -/
def isAlef (c : Char) : Bool :=
  [0x622, 0x623, 0x625, 0x627, 0x671, 0x672, 0x673, 0x675, 0x773, 0x774].contains c.toNat
    || isBetween 0x870 0x882 c

/-- A lam in one of its forms. -/
def isLam (c : Char) : Bool :=
  [0x644, 0x76a, 0x8a6, 0x8c7].contains c.toNat || isBetween 0x6b5 0x6b8 c

/-- A consonant of the Tifinagh script; two of them can form one sign. -/
def isTifinagh (c : Char) : Bool := isBetween 0x2d31 0x2d65 c || c.toNat == 0x2d6f

/-- A letter that goes below the one before it, after the sign for that. -/
def isSubscript (c : Char) : Bool :=
  isBetween 0x1780 0x1782 c || isBetween 0x1784 0x1787 c || isBetween 0x1789 0x178c c
    || isBetween 0x178e 0x1793 c || isBetween 0x1795 0x1798 c || isBetween 0x179b 0x179d c
    || isBetween 0x17ab 0x17ac c || [0x17a0, 0x17a2, 0x17a7, 0x17af].contains c.toNat

/-- A mark that shows nothing, so that a ligature goes through it. -/
def isInvisibleMark (c : Char) : Bool :=
  c.toNat == 0x34f || isBetween 0x17b4 0x17b5 c || isBetween 0x180b 0x180d c
    || c.toNat == 0x180f || isBetween 0xfe00 0xfe0f c || isBetween 0xe0100 0xe01ef c

/-! ## Joining -/

/-- A last letter, or the last letters, of a ligature. Where a joiner makes a difference,
`joined` says whether one has been read. -/
inductive Joining
  | alef
  | lamed (joined : Bool)
  | ya (joined : Bool)
  | yaAfterVowel
  | tifinagh (joined : Bool)
  | tifinaghAfterJoiner
  | lowTone
  | orkhonI (joined : Bool)
  | subscript
  | vowelE
  | vowelAi
  deriving DecidableEq, Repr

namespace Joining

/-- A letter that can be the last of a ligature. -/
def ofChar? (c : Char) : Option Joining :=
  if isAlef c then some alef
  else if isTifinagh c then some (tifinagh false)
  else if isSubscript c then some subscript
  else match c.toNat with
    | 0x5dc => some (lamed false)
    | 0x1a10 => some (ya false)
    | 0xa4fc | 0xa4fd => some lowTone
    | 0x10c03 => some (orkhonI false)
    | 0x16d67 => some vowelE
    | 0x16d68 => some vowelAi
    | _ => none

/-- A joiner stands before the letter. -/
def withJoiner : Joining → Joining
  | lamed _ => lamed true
  | ya _ => ya true
  | tifinagh _ => tifinagh true
  | orkhonI _ => orkhonI true
  | l => l

/-- The columns that a character adds if it is drawn with what waits for it, and what waits
then. -/
def take : Joining → Char → Option (Int × Option Joining)
  | alef, c =>
    if isLam c then some (0, none)
    else if transparent.contains c then some (0, some alef)
    else none
  | lamed true, c => if c.toNat == 0x5d0 then some (0, none) else none
  | subscript, c => if c.toNat == 0x17d2 then some (-1, none) else none
  | ya true, c => if c.toNat == 0x1a17 then some (0, some yaAfterVowel) else none
  | yaAfterVowel, c => if c.toNat == 0x1a15 then some (0, none) else none
  | tifinagh joined, c =>
    if c.toNat == 0x2d7f then some (1, some tifinaghAfterJoiner)
    else if joined && isTifinagh c then some (0, none)
    else none
  | tifinaghAfterJoiner, c => if isTifinagh c then some (-1, none) else none
  | lowTone, c => if isBetween 0xa4f8 0xa4fb c then some (0, none) else none
  | orkhonI true, c => if c.toNat == 0x10c32 then some (0, none) else none
  | vowelE, c =>
    match c.toNat with
    | 0x16d63 | 0x16d69 => some (0, none)
    | 0x16d67 => some (0, some vowelAi)
    | 0x16d68 => some (1, some vowelE)
    | _ => none
  | vowelAi, c => if c.toNat == 0x16d63 then some (0, none) else none
  | _, _ => none

/-- As `take`, but joiners and marks that show nothing are passed. The letters of an alef's
ligature stand without a joiner. -/
def join (l : Joining) (c : Char) : Option (Int × Option Joining) :=
  if l = alef then l.take c
  else if c.toNat == 0x200d then some (0, some l.withJoiner)
  else if isInvisibleMark c then some (0, some l)
  else l.take c

end Joining

end NestedWords.Text
