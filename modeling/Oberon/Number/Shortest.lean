/-!
# Oberon.Number.Shortest

The fewest decimal digits that read back as a given double. A finite positive double is
`m * 2 ^ q`; a decimal reads back as it when it lies between the midpoints to the neighbouring
doubles, the midpoints themselves counting when `m` is even. Among decimals of the least
length the nearest one is taken, and of two equally near ones the larger.
-/

namespace Oberon
namespace Number

/-- A positive double `m * 2 ^ q`. Below it the gap to the next double is half as wide when
`narrow` is set. -/
structure Binary where
  m : Nat
  q : Int
  narrow : Bool

namespace Binary

def ofBits (bits : Nat) : Binary :=
  let field : Nat := bits / 0x10000000000000 % 0x800
  let fraction : Nat := bits % 0x10000000000000
  if field = 0 then ⟨fraction, -1074, false⟩
  else ⟨fraction + 0x10000000000000, (field : Int) - 1075, fraction == 0 && field != 1⟩

/-- Compares `a * 2 ^ q` with `b * 10 ^ p`. -/
def compareScaled (a : Nat) (q : Int) (b : Nat) (p : Int) : Ordering :=
  let left := a * Nat.pow 2 q.toNat * Nat.pow 10 (-p).toNat
  let right := b * Nat.pow 10 p.toNat * Nat.pow 2 (-q).toNat
  compare left right

/-- Is `n * 10 ^ p` among the reals that round to `x`? -/
def readsBack (x : Binary) (n : Nat) (p : Int) : Bool :=
  let low := 4 * x.m - (if x.narrow then 1 else 2)
  let high := 4 * x.m + 2
  let above := match compareScaled low (x.q - 2) n p with
    | .lt => true
    | .eq => x.m % 2 == 0
    | .gt => false
  let below := match compareScaled high (x.q - 2) n p with
    | .gt => true
    | .eq => x.m % 2 == 0
    | .lt => false
  above && below

/-- The largest `n` with `n * 10 ^ p ≤ x`. -/
def floorAt (x : Binary) (p : Int) : Nat :=
  x.m * Nat.pow 2 x.q.toNat * Nat.pow 10 (-p).toNat /
    (Nat.pow 10 p.toNat * Nat.pow 2 (-x.q).toNat)

/-- Is `n + 1` at least as near to `x` as `n`, on the grid of multiples of `10 ^ p`? -/
def upperIsNearer (x : Binary) (n : Nat) (p : Int) : Bool :=
  compareScaled (2 * x.m) x.q (2 * n + 1) p != .lt

/-- The candidate of the grid `10 ^ p` that reads back, if there is one. -/
def candidate? (x : Binary) (p : Int) : Option Nat :=
  let n := x.floorAt p
  let lower := n != 0 && x.readsBack n p
  let upper := x.readsBack (n + 1) p
  if lower && upper then some (if x.upperIsNearer n p then n + 1 else n)
  else if lower then some n
  else if upper then some (n + 1)
  else none

/-- Searches ever finer grids, `fuel` of them. -/
def search (x : Binary) : (fuel : Nat) → (p : Int) → Nat × Int
  | 0, p => (x.floorAt p, p)
  | fuel + 1, p =>
    match x.candidate? p with
    | some n => (n, p)
    | none => search x fuel (p - 1)

end Binary

/-- Digits `n` and exponent `p` of the shortest decimal `n * 10 ^ p` that reads back as the
positive finite double with these bits. No double reaches `10 ^ 309`, and seventeen digits
always suffice, so the search starts on the coarsest grid that can hold a digit of it. -/
def shortest (bits : Nat) : Nat × Int :=
  let x := Binary.ofBits bits
  let top : Int := ((x.m.log2 : Int) + x.q) * 3 / 10 + 2
  x.search 25 top

end Number
end Oberon
