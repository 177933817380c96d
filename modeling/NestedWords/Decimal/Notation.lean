import NestedWords.Decimal.Shortest

/-!
# Decimal notation

How a number with a fraction is written: with the fewest digits that identify it, with a
point, and with an exponent where the notation asks for one.
-/
namespace NestedWords.Decimal

/-- The decisions of a notation. -/
structure Notation where
  /-- The exponents of the leading digit that are written out in places, if not all. -/
  positional : Option (Int × Int)
  /-- Positive exponents get a sign, as negative ones do. -/
  signedExponent : Bool
  tie : Tie
  deriving DecidableEq, Repr

namespace Notation

def isPositional (n : Notation) (e : Int) : Bool :=
  match n.positional with
  | none => true
  | some (low, high) => low ≤ e && e ≤ high

def zeros (n : Nat) : List Char := List.replicate n '0'

/-- Writes a decimal in places; an integer gets one zero behind the point. -/
def inPlaces (digits : List Char) (exponent : Int) : List Char :=
  let point := digits.length + exponent
  if 0 ≤ exponent then digits ++ zeros exponent.toNat ++ ['.', '0']
  else if 0 < point then digits.take point.toNat ++ '.' :: digits.drop point.toNat
  else '0' :: '.' :: zeros (-point).toNat ++ digits

/-- Writes a decimal with its leading digit before the point and an exponent. -/
def withExponent (n : Notation) (digits : List Char) (exponent : Int) : List Char :=
  let leading := digits.length + exponent - 1
  let fraction := digits.drop 1
  let plus := if n.signedExponent && 0 ≤ leading then ['+'] else []
  digits.take 1 ++ (if fraction.isEmpty then [] else '.' :: fraction)
    ++ 'e' :: plus ++ (toString leading).toList

/-- The text of a positive number. -/
def magnitude (n : Notation) (bits : UInt64) : List Char :=
  let x := Binary.ofBits bits
  if x.mantissa == 0 then ['0', '.', '0']
  else
    let d := x.shortest n.tie
    let digits := Nat.toDigits 10 d.digits
    if n.isPositional (digits.length + d.exponent - 1) then inPlaces digits d.exponent
    else n.withExponent digits d.exponent

/-- The text of a number. -/
def render (n : Notation) (x : Float) : String :=
  if x.isNaN then "NaN"
  else
    let sign := if x.toBits >>> 63 == 1 then "-" else ""
    sign ++ if x.isInf then "inf" else String.ofList (n.magnitude x.toBits)

end Notation

end NestedWords.Decimal
