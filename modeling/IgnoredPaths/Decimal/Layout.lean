import IgnoredPaths.Decimal.Shortest
import IgnoredPaths.Text.Basic

/-!
# Laying out a decimal

A decimal is written positionally while its leading digit is near the point, and with an
exponent otherwise. `Layout` holds what a format decides about this; `Layout.render` writes a
double by its shortest decimal.
-/

namespace IgnoredPaths

/-- What a format decides about the writing of numbers. -/
structure Layout where
  /-- The least exponent of the leading digit that is written positionally. -/
  positionalFrom : Int
  /-- The least exponent above those that are written positionally. -/
  positionalBelow : Int
  /-- How many digits an exponent has at least. -/
  exponentWidth : Nat
  /-- What stands for positive infinity. -/
  infinity : Text
  /-- What stands for a value that is no number. -/
  notANumber : Text

namespace Layout

/-- The digits of a decimal with a point after the first `whole` of them. -/
def positional (digits : Text) (whole : Int) : Text :=
  if whole ≤ 0 then '0' :: '.' :: List.replicate (-whole).toNat '0' ++ digits
  else
    let w := whole.toNat
    let padding := List.replicate (w - digits.length) '0'
    let tail := digits.drop w
    digits.take w ++ padding ++ '.' :: (if tail = [] then ['0'] else tail)

/-- The digits of a decimal with a point after the first and the exponent of the first. -/
def scientific (layout : Layout) (digits : Text) (exponent : Int) : Text :=
  let mantissa :=
    match digits with
    | d :: rest => if rest = [] then [d] else d :: '.' :: rest
    | [] => []
  let sign := if exponent < 0 then '-' else '+'
  mantissa ++ 'e' :: sign :: Text.padded 10 layout.exponentWidth exponent.natAbs

/-- A positive decimal. -/
def decimal (layout : Layout) (d : Decimal) : Text :=
  let digits := Text.ofNat d.digits
  let exponent := d.exponent + digits.length - 1
  if layout.positionalFrom ≤ exponent ∧ exponent < layout.positionalBelow then
    positional digits (exponent + 1)
  else layout.scientific digits exponent

/-- A double. -/
def render (layout : Layout) (f : Float) : Text :=
  let negative := f.toBits.toNat / Nat.pow 2 63 = 1
  let sign : Text := if negative then ['-'] else []
  if f.isNaN then layout.notANumber
  else if f.isInf then sign ++ layout.infinity
  else
    match Binary.ofFloat? f with
    | none => sign ++ ['0', '.', '0']
    | some x => sign ++ layout.decimal x.shortest

/-- Numbers are written positionally from `0.0001` to below `10^16`, and otherwise with an
exponent of two digits or more. -/
def plain : Layout where
  positionalFrom := -4
  positionalBelow := 16
  exponentWidth := 2
  infinity := "inf".toList
  notANumber := "nan".toList

end Layout

end IgnoredPaths
