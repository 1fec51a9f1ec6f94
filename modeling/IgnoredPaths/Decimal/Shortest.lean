/-!
# The shortest decimal of a binary fraction

A finite double is `m · 2^q`. Among the decimals that lie in the interval of reals rounding
to it (whose ends belong to it when `m` is even) the shortest is found by trying grids of
one, two, … seventeen digits: of each grid only the two neighbours of the value can be the
nearest point, so only they are tested, in whole numbers.

- `Binary`: a positive binary fraction with the position it has in its format.
- `Binary.accepts`: whether a decimal rounds to it.
- `Binary.shortest`: its shortest decimal, nearest to it among those of that length.
- `Binary.ofFloat?`: the magnitude of a finite double other than zero.
-/

namespace IgnoredPaths

/-- A decimal `digits · 10^exponent`. -/
structure Decimal where
  digits : Nat
  exponent : Int
  deriving DecidableEq, Repr

namespace Decimal

/-- The digits and the count of zeros dropped from their end, with a bound on that count. -/
def dropZeros : Nat → Nat → Nat × Nat
  | 0, n => (n, 0)
  | k + 1, n =>
    if n % 10 = 0 ∧ n ≠ 0 then
      let (d, z) := dropZeros k (n / 10)
      (d, z + 1)
    else (n, 0)

/-- The same decimal without zeros at the end of its digits. -/
def trimmed (d : Decimal) : Decimal :=
  let (n, zeros) := dropZeros d.digits d.digits
  ⟨n, d.exponent + zeros⟩

end Decimal

/-- A positive binary fraction `mantissa · 2^exponent`; `lowest` says that the mantissa is the
least of its binade, so that the next smaller fraction is only half a step away. -/
structure Binary where
  mantissa : Nat
  exponent : Int
  lowest : Bool
  deriving DecidableEq, Repr

namespace Binary

/-- The two sides of the comparison of `a · 2^p` with `b · 10^k`, as whole numbers. -/
def sides (a : Nat) (p : Int) (b : Nat) (k : Int) : Nat × Nat :=
  (a * Nat.pow 2 p.toNat * Nat.pow 10 (-k).toNat, b * Nat.pow 10 k.toNat * Nat.pow 2 (-p).toNat)

/-- Whether a decimal rounds to the fraction. Quarters of a step of the last binary place
measure the distance to the two ends of the interval. -/
def accepts (x : Binary) (d : Decimal) : Bool :=
  let low :=
    sides (4 * x.mantissa - (if x.lowest then 1 else 2)) (x.exponent - 2) d.digits d.exponent
  let high := sides (4 * x.mantissa + 2) (x.exponent - 2) d.digits d.exponent
  if x.mantissa % 2 = 0 then low.1 ≤ low.2 && high.2 ≤ high.1
  else low.1 < low.2 && high.2 < high.1

/-- The exponent of the leading decimal digit. -/
def leading (x : Binary) : Int :=
  let (num, den) := sides x.mantissa x.exponent 1 0
  if den ≤ num then ((Nat.toDigits 10 (num / den)).length : Int) - 1
  else
    let k := (Nat.toDigits 10 (den / num)).length
    if den ≤ num * Nat.pow 10 (k - 1) then -((k : Int) - 1) else -(k : Int)

/-- The decimal on the grid of step `10^k` that is nearest to the fraction among the two
neighbours that round to it; of two equally near the even one. -/
def onGrid? (x : Binary) (k : Int) : Option Decimal :=
  let (num, den) := sides x.mantissa x.exponent 1 k
  let floor := num / den
  let below : Decimal := ⟨floor, k⟩
  let above : Decimal := ⟨floor + 1, k⟩
  let rest := 2 * (num % den)
  let upward := den < rest || (rest = den && floor % 2 = 1)
  match x.accepts below, x.accepts above with
  | true, true => some (if upward then above else below)
  | true, false => some below
  | false, true => some above
  | false, false => none

/-- The shortest decimal that rounds to the fraction. -/
def shortest (x : Binary) : Decimal :=
  let top := x.leading
  match (List.range 17).findSome? fun (n : Nat) => x.onGrid? (top - n) with
  | some d => d.trimmed
  | none => ⟨x.mantissa, 0⟩

/-- The magnitude of a double, if it is finite and not zero. -/
def ofFloat? (f : Float) : Option Binary :=
  let bits : Nat := f.toBits.toNat
  let field : Nat := bits / Nat.pow 2 52 % Nat.pow 2 11
  let fraction : Nat := bits % Nat.pow 2 52
  if field = 0x7FF then none
  else if field = 0 then
    if fraction = 0 then none else some ⟨fraction, -1074, false⟩
  else some ⟨Nat.pow 2 52 + fraction, (field : Int) - 1075, fraction = 0 && field ≠ 1⟩

end Binary

end IgnoredPaths
