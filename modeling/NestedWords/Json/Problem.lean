import NestedWords.Mismatch

/-!
# Problems of a JSON document

A document can end too early, break the grammar, or hold something other than what was
asked for. It is read from left to right and the first problem is reported.
-/
namespace NestedWords.Json

/-- The part of a document that is being read. -/
inductive Part
  | value
  | list
  | object
  | string
  deriving DecidableEq, Repr

/-- Why a document was refused. -/
inductive Problem
  | endOf (part : Part)
  | expectedValue
  | expectedIdent
  | expectedColon
  | expectedListEnd
  | expectedObjectEnd
  | trailingComma
  | trailingCharacters
  | keyNotString
  | invalidNumber
  | numberOutOfRange
  | invalidEscape
  | loneSurrogate
  | unpairedSurrogate
  | controlCharacter
  | mismatch (m : Mismatch)

/-- The three kinds of problems. -/
inductive Category
  | endOfInput
  | grammar
  | data
  deriving DecidableEq, Repr

namespace Problem

def category : Problem → Category
  | endOf _ => .endOfInput
  | mismatch _ => .data
  | _ => .grammar

/-- Numbers are written out in places from four zeros behind the point to sixteen digits
before it, and beyond that with an exponent that has a sign. -/
def decimals : Decimal.Notation where
  positional := some (-5, 15)
  signedExponent := true
  tie := .even

def message : Problem → String
  | endOf .value => "EOF while parsing a value"
  | endOf .list => "EOF while parsing a list"
  | endOf .object => "EOF while parsing an object"
  | endOf .string => "EOF while parsing a string"
  | expectedValue => "expected value"
  | expectedIdent => "expected ident"
  | expectedColon => "expected `:`"
  | expectedListEnd => "expected `,` or `]`"
  | expectedObjectEnd => "expected `,` or `\x7d`"
  | trailingComma => "trailing comma"
  | trailingCharacters => "trailing characters"
  | keyNotString => "key must be a string"
  | invalidNumber => "invalid number"
  | numberOutOfRange => "number out of range"
  | invalidEscape => "invalid escape"
  | loneSurrogate => "lone leading surrogate in hex escape"
  | unpairedSurrogate => "unexpected end of hex escape"
  | controlCharacter => "control character (\\u0000-\\u001F) found while parsing a string"
  | mismatch m => m.message decimals

end Problem

end NestedWords.Json
