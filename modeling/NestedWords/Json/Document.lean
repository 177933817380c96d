import NestedWords.Json.Reader
import NestedWords.Automaton.Description

/-!
# Automata as JSON documents

A description is an object whose fields may come in any order and may be left out, or a
list of the fields in their fixed order of which the last ones may be left out. States and
letters are written in the way of their type: texts, numbers, or texts of one character.
`readDescription` reads a document and `writeDescription` writes one.
-/
namespace NestedWords.Json

/-- A type of states or letters with its written form. -/
class Written (α : Type) where
  read : Reader α
  write : α → String

/-! ## Written forms -/

/-- The lower half of a byte, in hexadecimal. -/
def hexOf (n : Nat) : List Char := Nat.toDigits 16 (n % 16)

/-- A character inside a string. -/
def escaped : Char → List Char
  | '"' => ['\\', '"']
  | '\\' => ['\\', '\\']
  | '\x08' => ['\\', 'b']
  | '\x0c' => ['\\', 'f']
  | '\n' => ['\\', 'n']
  | '\r' => ['\\', 'r']
  | '\t' => ['\\', 't']
  | c =>
    if c.toNat < 0x20 then ['\\', 'u', '0', '0'] ++ hexOf (c.toNat / 16) ++ hexOf c.toNat
    else [c]

def writeText (s : String) : String :=
  String.ofList ('"' :: s.toList.flatMap escaped ++ ['"'])

instance : Written String := ⟨text, writeText⟩

/-- A number of 32 bits. -/
def word32 : Reader UInt32 := do
  return UInt32.ofNat (← integer 0 (UInt32.size - 1) "u32").toNat

instance : Written UInt32 := ⟨word32, toString⟩

/-- A text of exactly one character. -/
def character : Reader Char := do
  if (← startValue) != '"' then refuse "a character"
  let s ← string
  match s.toList with
  | [c] => return c
  | _ => misfit (.wrongValue (.text s) "a character")

instance : Written Char := ⟨character, fun c => writeText (String.ofList [c])⟩

/-! ## Fields -/

/-- The parts of a description. -/
inductive Field
  | initial
  | final
  | internalAlphabet
  | callAlphabet
  | returnAlphabet
  | internal
  | call
  | returns
  deriving DecidableEq, Repr

namespace Field

/-- All fields in their fixed order. -/
def all : List Field :=
  [initial, final, internalAlphabet, callAlphabet, returnAlphabet, internal, call, returns]

def name : Field → String
  | initial => "initial"
  | final => "final"
  | internalAlphabet => "internal_alphabet"
  | callAlphabet => "call_alphabet"
  | returnAlphabet => "return_alphabet"
  | internal => "internal"
  | call => "call"
  | returns => "return"

def named? (s : String) : Option Field := all.find? (·.name == s)

end Field

variable {S L : Type} [Ord S] [Std.TransOrd S] [Written S] [Ord L] [Std.TransOrd L] [Written L]

def readSet {α : Type} [Ord α] [Std.TransOrd α] [Written α] : Reader (FinSet α) := do
  let xs : List α ← sequence Written.read
  return Std.ExtTreeSet.ofList xs

/-- Reads the value of a field into a description. -/
def readField (d : Description S L) : Field → Reader (Description S L)
  | .initial => return { d with initial := ← sequence Written.read }
  | .final => return { d with final := ← readSet }
  | .internalAlphabet => return { d with internalAlphabet := ← readSet }
  | .callAlphabet => return { d with callAlphabet := ← readSet }
  | .returnAlphabet => return { d with returnAlphabet := ← readSet }
  | .internal =>
    return { d with internal := ← sequence (triple Written.read Written.read Written.read) }
  | .call => return { d with call := ← sequence (triple Written.read Written.read Written.read) }
  | .returns =>
    return { d with
      returns := ← sequence (quadruple Written.read Written.read Written.read Written.read) }

/-- The fields of an object; `seen` are those that have been read. -/
def readObject : Nat → List Field → Description S L → Reader (Description S L)
  | 0, _, _ => fail (.endOf .object)
  | fuel + 1, seen, d => do
    if ← hasKey seen.isEmpty then
      let key ← string
      match Field.named? key with
      | none => misfit (.unknownField key (Field.all.map Field.name))
      | some field =>
        if field ∈ seen then misfit (.duplicateField key)
        colon
        readObject fuel (field :: seen) (← readField d field)
    else
      skip
      return d

/-- The fields of a list. -/
def readList : List Field → Bool → Description S L → Reader (Description S L)
  | [], _, d => do
    endSequence
    return d
  | field :: fields, first, d => do
    if ← hasElement first then readList fields false (← readField d field)
    else
      endSequence
      return d

def description : Reader (Description S L) := do
  match ← startValue with
  | '\x7b' =>
    skip
    readObject (Field.all.length + 1) [] {}
  | '[' =>
    skip
    readList Field.all true {}
  | _ => refuse "struct ExplicitNwaDescription"

/-- Reads a description from a document. -/
def readDescription (s : String) : Except Problem (Description S L) := document description s

/-! ## Writing -/

def writeList {α : Type} (write : α → String) (xs : List α) : String :=
  "[" ++ ",".intercalate (xs.map write) ++ "]"

def writeTriple (t : S × L × S) : String :=
  writeList id [Written.write t.1, Written.write t.2.1, Written.write t.2.2]

def writeQuadruple (t : S × S × L × S) : String :=
  writeList id
    [Written.write t.1, Written.write t.2.1, Written.write t.2.2.1, Written.write t.2.2.2]

/-- The value of a field. -/
def writeField (d : Description S L) : Field → String
  | .initial => writeList Written.write d.initial
  | .final => writeList Written.write d.final.toList
  | .internalAlphabet => writeList Written.write d.internalAlphabet.toList
  | .callAlphabet => writeList Written.write d.callAlphabet.toList
  | .returnAlphabet => writeList Written.write d.returnAlphabet.toList
  | .internal => writeList writeTriple d.internal
  | .call => writeList writeTriple d.call
  | .returns => writeList writeQuadruple d.returns

/-- Writes a description as an object with all its fields. -/
def writeDescription (d : Description S L) : String :=
  let fields := Field.all.map fun f => writeText f.name ++ ":" ++ writeField d f
  "\x7b" ++ ",".intercalate fields ++ "\x7d"

end NestedWords.Json
