/-!
# The number nearest to a decimal
-/
namespace NestedWords.Decimal

/-- The floating-point number nearest to `digits * 10 ^ exponent`. Decimals with a leading
digit beyond four hundred places are infinite or zero, so that no huge power is computed. -/
def nearest (digits : Nat) (exponent : Int) : Float :=
  let places := (Nat.toDigits 10 digits).length + exponent
  if digits == 0 || places < -400 then 0
  else if 400 < places then 1 / 0
  else Float.ofScientific digits (exponent < 0) exponent.natAbs

end NestedWords.Decimal
