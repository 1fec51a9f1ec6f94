import IgnoredPaths.Text.Blank
import IgnoredPaths.Text.Digit

/-!
# Numerals

Reading numbers that people write: blanks around a numeral are ignored, a sign may stand in
front, digits may be those of any script, and a single underscore may stand between two digits.

- `Numeral.natural?`: digits of a base.
- `Numeral.integer?`: a whole number; a base other than ten may be announced by its mark.
- `Numeral.real?`: a decimal fraction with an exponent, an infinity, or no number, as a double.
-/

namespace IgnoredPaths

namespace Numeral

/-- The value of a digit in some base up to sixteen. -/
def digitIn? (base : Nat) (c : Char) : Option Nat :=
  let value :=
    match digitValue? c with
    | some v => some v
    | none =>
      if 'a' ≤ c && c ≤ 'f' then some (c.toNat - 'a'.toNat + 10)
      else if 'A' ≤ c && c ≤ 'F' then some (c.toNat - 'A'.toNat + 10)
      else none
  value.filter (· < base)

/-- The value of digits after those read already; `after` says that a digit stands in front. -/
def digitsFrom? (base : Nat) : Bool → Nat → Text → Option Nat
  | after, value, [] => if after then some value else none
  | after, value, c :: r =>
    if c = '_' then if after then digitsFrom? base false value r else none
    else
      match digitIn? base c with
      | some d => digitsFrom? base true (value * base + d) r
      | none => none

/-- The value of at least one digit. -/
def natural? (base : Nat) (s : Text) : Option Nat := digitsFrom? base false 0 s

/-- How many digits a decimal numeral may have to be read as a whole number. -/
def maxDigits : Nat := 4300

/-- The sign in front of a numeral, as whether it is negative, and what follows it. -/
def signed (s : Text) : Bool × Text :=
  match s with
  | '-' :: r => (true, r)
  | '+' :: r => (false, r)
  | r => (false, r)

/-- A numeral without the mark that announces its base, after which an underscore may stand. -/
def unmarked (base : Nat) (s : Text) : Text :=
  let bare (r : Text) : Text :=
    match r with
    | '_' :: c :: r => c :: r
    | r => r
  match s with
  | '0' :: mark :: r =>
    if (base = 2 ∧ (mark = 'b' ∨ mark = 'B')) ∨ (base = 8 ∧ (mark = 'o' ∨ mark = 'O'))
        ∨ (base = 16 ∧ (mark = 'x' ∨ mark = 'X')) then bare r
    else s
  | _ => s

/-- A whole number in some base. -/
def integer? (base : Nat) (s : Text) : Option Int :=
  let (negative, body) := signed (Text.strip s)
  if base = 10 ∧ (body.filter (· ≠ '_')).length > maxDigits then none
  else (natural? base (unmarked base body)).map fun n => if negative then -(n : Int) else n

/-- The double nearest to `mantissa · 10^exponent`. Beyond the range of doubles the exponent is
not followed to the letter. -/
def scaled (mantissa : Nat) (exponent : Int) : Float :=
  let size : Int := (Nat.toDigits 10 mantissa).length + exponent
  if mantissa = 0 then 0.0
  else if size > 400 then 1.0 / 0.0
  else if size < -400 then 0.0
  else if exponent < 0 then Float.ofScientific mantissa true exponent.natAbs
  else Float.ofScientific (mantissa * Nat.pow 10 exponent.toNat) false 0

/-- The digits of an optional part of a numeral, with their count. -/
def optionalDigits? (s : Text) : Option (Nat × Nat) :=
  if s = [] then some (0, 0)
  else (natural? 10 s).map fun n => (n, (s.filter (· ≠ '_')).length)

/-- A decimal fraction without sign and exponent, as digits and the count of its places. -/
def fraction? (s : Text) : Option (Nat × Nat) :=
  match s.dropWhile (· ≠ '.') with
  | [] => (natural? 10 s).map fun n => (n, 0)
  | _ :: places =>
    let whole := s.takeWhile (· ≠ '.')
    if whole = [] ∧ places = [] then none
    else
      match optionalDigits? whole, optionalDigits? places with
      | some (w, _), some (p, k) => some (w * Nat.pow 10 k + p, k)
      | _, _ => none

/-- A decimal fraction without sign, as a double. -/
def magnitude? (s : Text) : Option Float :=
  let isMark (c : Char) : Bool := c = 'e' || c = 'E'
  let exponent? : Option Int :=
    match s.dropWhile (fun c => !isMark c) with
    | [] => some 0
    | _ :: r =>
      let (negative, digits) := signed r
      (natural? 10 digits).map fun n => if negative then -(n : Int) else n
  match fraction? (s.takeWhile fun c => !isMark c), exponent? with
  | some (digits, places), some e => some (scaled digits (e - places))
  | _, _ => none

/-- A number as a double. -/
def real? (s : Text) : Option Float :=
  let (negative, body) := signed (Text.strip s)
  let word := String.ofList (body.map Char.toLower)
  let value :=
    if word = "inf" || word = "infinity" then some (1.0 / 0.0)
    else if word = "nan" then some (0.0 / 0.0)
    else magnitude? body
  value.map fun f => if negative then -f else f

end Numeral

end IgnoredPaths
