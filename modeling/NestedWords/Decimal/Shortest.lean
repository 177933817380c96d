/-!
# Shortest decimals

A finite floating-point number stands for all the reals that round to it. `Binary.shortest`
finds the decimal with the fewest digits among them, and of those the one closest to the
number itself. All comparisons are made on naturals, so nothing is lost to rounding.
-/
namespace NestedWords.Decimal

/-- A positive number `mantissa * 2 ^ exponent`. -/
structure Binary where
  mantissa : Nat
  exponent : Int
  /-- The gap to the number below is half the gap to the number above. -/
  narrowBelow : Bool
  deriving DecidableEq, Repr

/-- The absolute value of a finite number, from its bits. -/
def Binary.ofBits (bits : UInt64) : Binary :=
  let field := ((bits >>> 52) &&& 0x7ff).toNat
  let fraction := (bits &&& 0xfffffffffffff).toNat
  if field == 0 then ⟨fraction, -1074, false⟩
  else ⟨Nat.pow 2 52 + fraction, (field : Int) - 1075, fraction == 0 && 1 < field⟩

/-- A decimal `digits * 10 ^ exponent`. -/
structure Digits where
  digits : Nat
  exponent : Int
  deriving DecidableEq, Repr

/-- Which of two equally close decimals is taken. -/
inductive Tie
  | even
  | up
  deriving DecidableEq, Repr

/-- Compares `a * 10 ^ i` with `b * 2 ^ j`. -/
def compareScaled (a : Nat) (i : Int) (b : Nat) (j : Int) : Ordering :=
  compare (a * Nat.pow 10 i.toNat * Nat.pow 2 (-j).toNat)
    (b * Nat.pow 2 j.toNat * Nat.pow 10 (-i).toNat)

namespace Binary

/-- The decimal rounds to the number: it lies between the midpoints to both neighbours, or
on one of them if the mantissa is even. -/
def readsBack (x : Binary) (d : Digits) : Bool :=
  let low := if x.narrowBelow then 4 * x.mantissa - 1 else 4 * x.mantissa - 2
  let below := compareScaled d.digits d.exponent low (x.exponent - 2)
  let above := compareScaled d.digits d.exponent (4 * x.mantissa + 2) (x.exponent - 2)
  let closed := x.mantissa % 2 == 0
  (below == .gt || (closed && below == .eq)) && (above == .lt || (closed && above == .eq))

/-- The least exponent whose power of ten exceeds the number. -/
def scale (x : Binary) : Int :=
  let candidates := (List.range 640).map fun (i : Nat) => (i : Int) - 330
  (candidates.find? fun k => compareScaled 1 k x.mantissa x.exponent == .gt).getD 310

/-- The better of the two decimals next to the number on the grid `10 ^ e`, if one of them
rounds to it. -/
def onGrid (x : Binary) (tie : Tie) (e : Int) : Option Digits :=
  let numerator := x.mantissa * Nat.pow 2 x.exponent.toNat * Nat.pow 10 (-e).toNat
  let denominator := Nat.pow 2 (-x.exponent).toNat * Nat.pow 10 e.toNat
  let below := numerator / denominator
  let down : Digits := ⟨below, e⟩
  let up : Digits := ⟨below + 1, e⟩
  match x.readsBack down, x.readsBack up with
  | false, false => none
  | true, false => some down
  | false, true => some up
  | true, true =>
    match compare (2 * numerator) ((2 * below + 1) * denominator) with
    | .lt => some down
    | .gt => some up
    | .eq => if tie == .even && below % 2 == 0 then some down else some up

/-- Moves zeros at the end of the digits into the exponent. -/
def strip : Nat → Digits → Digits
  | 0, d => d
  | fuel + 1, d =>
    if d.digits % 10 == 0 && d.digits != 0 then strip fuel ⟨d.digits / 10, d.exponent + 1⟩ else d

/-- The shortest decimal that rounds to the number. Seventeen digits are always enough. -/
def shortest (x : Binary) (tie : Tie) : Digits :=
  let k := x.scale
  let grids := (List.range 17).map fun (n : Nat) => k - (n + 1)
  let exact : Digits := ⟨x.mantissa * Nat.pow 2 x.exponent.toNat, 0⟩
  strip 17 ((grids.findSome? (x.onGrid tie)).getD exact)

end Binary

end NestedWords.Decimal
