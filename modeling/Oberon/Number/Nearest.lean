/-!
# Oberon.Number.Nearest

The double nearest to a decimal number, by exact arithmetic on naturals: ties go to the even
neighbour, and what lies beyond the largest double becomes infinity.
-/

namespace Oberon
namespace Number

/-- `num / den` rounded to the nearest natural, a half to the even neighbour. -/
def roundHalfEven (num den : Nat) : Nat :=
  let q := num / den
  let twice := 2 * (num % den)
  if twice < den then q
  else if den < twice then q + 1
  else if q % 2 = 0 then q else q + 1

/-- `num / den * 2 ^ shift` as a fraction of naturals. -/
def scale (num den : Nat) (shift : Int) : Nat × Nat :=
  if 0 ≤ shift then (num * Nat.pow 2 shift.toNat, den)
  else (num, den * Nat.pow 2 (-shift).toNat)

/-- The largest `e` with `2 ^ e ≤ num / den`, for positive `num` and `den`. -/
def exponentOf (num den : Nat) : Int :=
  let guess : Int := (num.log2 : Int) - (den.log2 : Int)
  let (n, d) := scale num den (-guess)
  if d ≤ n then guess else guess - 1

def infinityBits : Nat := 0x7ff0000000000000

/-- Bits of the double nearest to `num / den`. The significand has 53 bits, fewer below the
smallest normal exponent; a significand that rounds up to the next power of two carries into
the exponent field by itself. -/
def nearestBits (num den : Nat) : Nat :=
  if num = 0 then 0
  else
    let e := max (exponentOf num den) (-1022)
    let (n, d) := scale num den (52 - e)
    min ((e + 1022).toNat * 0x10000000000000 + roundHalfEven n d) infinityBits

/-- The double nearest to `digits * 10 ^ exponent`. Exponents far outside the range of doubles
are settled by the number of digits alone. -/
def ofDecimal (digits : Nat) (exponent : Int) : Float :=
  let magnitude : Int := (digits.log2 : Int) * 30103 / 100000 + exponent
  let bits :=
    if digits = 0 then 0
    else if 400 < magnitude then infinityBits
    else if magnitude < -400 then 0
    else if 0 ≤ exponent then nearestBits (digits * Nat.pow 10 exponent.toNat) 1
    else nearestBits digits (Nat.pow 10 (-exponent).toNat)
  Float.ofBits bits.toUInt64

end Number
end Oberon
