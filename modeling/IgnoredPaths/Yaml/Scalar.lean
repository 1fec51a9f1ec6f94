import IgnoredPaths.Config.Value
import IgnoredPaths.Text.Lowercase
import IgnoredPaths.Text.Numeral
import IgnoredPaths.Yaml.Cursor

/-!
# What scalars mean

The form of a plain scalar decides what it is: a truth value, a number, a moment, nothing, or
else a text. A tag can also declare it, whatever its form; then reading it can fail.

- `Yaml.Tag`: what nodes can be.
- `Yaml.Tag.ofPlain`: what the form of a plain scalar says.
- `Yaml.Tag.read`: the value of a scalar of a declared kind.
-/

namespace IgnoredPaths

namespace Yaml

/-- What a node can be. -/
inductive Tag where
  | null
  | bool
  | int
  | float
  | moment
  | binary
  | text
  /-- The key under which a mapping takes over the entries of others. -/
  | merge
  /-- The key of the value that stands for a whole mapping. -/
  | value
  | list
  | mapping
  | set
  /-- A list of mappings with one entry each, read as pairs. -/
  | pairs
  | unknown
  deriving DecidableEq

namespace Tag

/-- What the names of the known tags begin with. -/
def family : Text := "tag:yaml.org,2002:".toList

/-- The names of the known tags within their family. -/
def names : List (String × Tag) :=
  [("null", .null), ("bool", .bool), ("int", .int), ("float", .float), ("timestamp", .moment),
   ("binary", .binary), ("str", .text), ("merge", .merge), ("value", .value), ("seq", .list),
   ("map", .mapping), ("set", .set), ("omap", .pairs), ("pairs", .pairs)]

/-- The tag of a name. -/
def ofName (name : Text) : Tag :=
  if Text.startsWith name family then
    (names.lookup (String.ofList (name.drop family.length))).getD .unknown
  else .unknown

/-! ## The forms of plain scalars -/

/-- Whether a text is digits and underscores, the first one a digit. -/
def isSpaced (s : Text) : Bool :=
  match s with
  | [] => false
  | c :: r => isAsciiDigit c && r.all fun c => isAsciiDigit c || c = '_'

/-- Whether a text is a number below sixty in one or two digits. -/
def isSixtieth (s : Text) : Bool :=
  match s with
  | [c] => isAsciiDigit c
  | [d, c] => '0' ≤ d && d ≤ '5' && isAsciiDigit c
  | _ => false

/-- A text without a sign in front. -/
def unsigned (s : Text) : Text := (Numeral.signed s).2

/-- Whether a text is not empty and all its characters are of a class. -/
def consistsOf (ok : Char → Bool) (s : Text) : Bool := !s.isEmpty && s.all ok

/-- Whether a plain scalar has the form of a whole number: binary, octal, decimal, hexadecimal, or
in parts of sixty. -/
def isInt (s : Text) : Bool :=
  match unsigned s with
  | '0' :: 'b' :: r => consistsOf (fun c => c = '0' || c = '1' || c = '_') r
  | '0' :: 'x' :: r => consistsOf (fun c => isHexDigit c || c = '_') r
  | '0' :: r => r.all fun c => ('0' ≤ c && c ≤ '7') || c = '_'
  | r =>
    match Text.split ':' r with
    | [] => false
    | whole :: parts => isSpaced whole && parts.all isSixtieth

/-- Whether a text is an exponent with its mark and its sign, or nothing. -/
def isExponent (s : Text) : Bool :=
  match s with
  | [] => true
  | mark :: sign :: r =>
    (mark = 'e' || mark = 'E') && (sign = '+' || sign = '-') && consistsOf isAsciiDigit r
  | _ => false

/-- Whether a text is the places behind a point, perhaps with an exponent. -/
def isPlaces (s : Text) : Bool :=
  isExponent (s.dropWhile fun c => isAsciiDigit c || c = '_')

/-- Whether a plain scalar has the form of a decimal fraction, perhaps in parts of sixty, of an
infinity, or of no number. -/
def isFloat (s : Text) : Bool :=
  match s with
  | '.' :: c :: r => (isAsciiDigit c && isPlaces r) || isWord (c :: r)
  | _ =>
    match unsigned s with
    | '.' :: r => isInfinity r
    | r =>
      let whole := r.takeWhile (· ≠ '.')
      match r.dropWhile (· ≠ '.') with
      | [] => false
      | _ :: places =>
        match Text.split ':' whole with
        | [] => false
        | [whole] => isSpaced whole && isPlaces places
        | whole :: parts =>
          isSpaced whole && parts.all isSixtieth && places.all fun c => isAsciiDigit c || c = '_'
where
  isInfinity (s : Text) : Bool := ["inf", "Inf", "INF"].contains (String.ofList s)
  isWord (s : Text) : Bool := ["inf", "Inf", "INF", "nan", "NaN", "NAN"].contains (String.ofList s)

/-- The truth values. -/
def truthWords : List (String × Bool) :=
  [("yes", true), ("no", false), ("true", true), ("false", false), ("on", true), ("off", false)]

/-- Whether a plain scalar is a truth value, in small letters, with a capital or in capitals. -/
def isBool (s : Text) : Bool :=
  truthWords.any fun (w, _) =>
    let small := w.toList
    s = small || s = small.map Char.toUpper
      || s = match small with
        | c :: r => c.toUpper :: r
        | [] => []

/-- Whether a plain scalar stands for nothing. -/
def isNull (s : Text) : Bool := ["", "~", "null", "Null", "NULL"].contains (String.ofList s)

end Tag

/-! ## Moments -/

/-- The parts of a moment as they are written. -/
structure MomentParts where
  date : Nat × Nat × Nat
  /-- Whether month and day have two digits each. -/
  wide : Bool
  time : Option (Nat × Nat × Nat)
  fraction : Text
  /-- The distance from universal time in seconds, if it is given. -/
  offset : Option Int

namespace MomentParts

/-- The value of ASCII digits. -/
def number (s : Text) : Nat := s.foldl (fun n d => n * 10 + (d.toNat - '0'.toNat)) 0

/-- One or two digits in front, and what follows them. -/
def one? (s : Text) : Option (Text × Text) :=
  match s with
  | a :: b :: r =>
    if !isAsciiDigit a then none
    else if isAsciiDigit b then some ([a, b], r) else some ([a], b :: r)
  | [a] => if isAsciiDigit a then some ([a], []) else none
  | [] => none

/-- Two digits in front, and what follows them. -/
def two? (s : Text) : Option (Text × Text) :=
  match s with
  | a :: b :: r => if isAsciiDigit a && isAsciiDigit b then some ([a, b], r) else none
  | _ => none

/-- What follows a character. -/
def after? (c : Char) (s : Text) : Option Text :=
  match s with
  | d :: r => if d = c then some r else none
  | [] => none

/-- The date in front, whether it is wide, and what follows it. -/
def date? (s : Text) : Option ((Nat × Nat × Nat) × Bool × Text) := do
  let year := s.take 4
  if year.length ≠ 4 || !year.all isAsciiDigit then none
  let (month, s) ← one? (← after? '-' (s.drop 4))
  let (day, s) ← one? (← after? '-' s)
  return ((number year, number month, number day), month.length = 2 && day.length = 2, s)

/-- The distance from universal time at the end of a moment, if there is one. -/
def zone? (s : Text) : Option (Option Int) :=
  match s.dropWhile fun c => c = ' ' || c = '\t' with
  | [] => if s = [] then some none else none
  | ['Z'] => some (some 0)
  | sign :: r => do
    if sign ≠ '+' && sign ≠ '-' then none
    let (hours, r) ← one? r
    let minutes ←
      match r with
      | [] => some 0
      | ':' :: r => do
        let (minutes, r) ← two? r
        if r = [] then some (number minutes) else none
      | _ => none
    let seconds : Int := (number hours * 3600 + minutes * 60 : Nat)
    return some (if sign = '-' then -seconds else seconds)

/-- The parts of a moment. -/
def ofText? (s : Text) : Option MomentParts := do
  let (date, wide, rest) ← date? s
  if rest = [] then return ⟨date, wide, none, [], none⟩
  let rest ←
    match rest with
    | 'T' :: r | 't' :: r => some r
    | c :: r =>
      if c = ' ' || c = '\t' then some (r.dropWhile fun c => c = ' ' || c = '\t') else none
    | [] => none
  let (hour, rest) ← one? rest
  let (minute, rest) ← two? (← after? ':' rest)
  let (second, rest) ← two? (← after? ':' rest)
  let (fraction, rest) :=
    match rest with
    | '.' :: r => (r.takeWhile isAsciiDigit, r.dropWhile isAsciiDigit)
    | r => ([], r)
  return ⟨date, wide, some (number hour, number minute, number second), fraction, ← zone? rest⟩

/-- How many days a month has. -/
def daysIn (year month : Nat) : Nat :=
  if month = 2 then
    if year % 4 = 0 ∧ (year % 100 ≠ 0 ∨ year % 400 = 0) then 29 else 28
  else if month = 4 ∨ month = 6 ∨ month = 9 ∨ month = 11 then 30
  else 31

/-- The value of the parts, if there are such a day, such a time and such a distance. -/
def value? (p : MomentParts) : Option Value :=
  let (year, month, day) := p.date
  if year = 0 || month = 0 || 12 < month || day = 0 || daysIn year month < day then none
  else
    match p.time with
    | none => some (.date year month day)
    | some (hour, minute, second) =>
      let fraction := (p.fraction ++ List.replicate 6 '0').take 6
      if 24 ≤ hour || 60 ≤ minute || 60 ≤ second || p.offset.any (86400 ≤ ·.natAbs) then none
      else
        some (.moment ⟨year, month, day,
          (hour * 3600 + minute * 60 + second) * 1000000 + number fraction, p.offset⟩)

end MomentParts

namespace Tag

/-- Whether a plain scalar has the form of a moment; a date alone has to be wide. -/
def isMoment (s : Text) : Bool :=
  match MomentParts.ofText? s with
  | some p => p.time.isSome || p.wide
  | none => false

/-- What the form of a plain scalar says. -/
def ofPlain (s : Text) : Tag :=
  if isBool s then .bool
  else if isFloat s then .float
  else if isInt s then .int
  else if s = ['<', '<'] then .merge
  else if isNull s then .null
  else if isMoment s then .moment
  else if s = ['='] then .value
  else .text

/-! ## Reading declared scalars -/

/-- The sum of numbers in parts of sixty, the least part last. -/
def inSixties (parts : List Int) : Int := parts.foldl (fun sum part => sum * 60 + part) 0

/-- A whole number. -/
def readInt (s : Text) : Except Problem Value :=
  let s := s.filter (· ≠ '_')
  let (negative, body) := Numeral.signed s
  let magnitude? : Except Problem Int :=
    let given (n : Option Int) : Except Problem Int := n.elim (.error .badNumber) .ok
    match body with
    | [] => .error .emptyNumber
    | ['0'] => .ok 0
    | '0' :: 'b' :: r => given (Numeral.integer? 2 r)
    | '0' :: 'x' :: r => given (Numeral.integer? 16 r)
    | '0' :: r => given (Numeral.integer? 8 ('0' :: r))
    | body =>
      if body.contains ':' then
        given (((Text.split ':' body).mapM (Numeral.integer? 10)).map inSixties)
      else given (Numeral.integer? 10 body)
  magnitude?.map fun n => .int (if negative then -n else n)

/-- The sum of numbers in parts of sixty, added from the least part on. -/
def floatInSixties (parts : List Float) : Float :=
  (parts.reverse.foldl (fun (sum, base) part => (sum + part * base, base * 60.0))
    ((0.0, 1.0) : Float × Float)).1

/-- A decimal fraction. -/
def readFloat (s : Text) : Except Problem Value :=
  let s := Text.lower (s.filter (· ≠ '_'))
  let (negative, body) := Numeral.signed s
  if s = [] then .error .emptyNumber
  else if body = ".nan".toList then .ok (.float (0.0 / 0.0))
  else
    let magnitude? : Option Float :=
      if body = ".inf".toList then some (1.0 / 0.0)
      else if body.contains ':' then
        ((Text.split ':' body).mapM Numeral.real?).map floatInSixties
      else Numeral.real? body
    match magnitude? with
    | none => .error .badNumber
    | some f => .ok (.float (if negative then -f else f))

/-- The value of a character in base 64. -/
def sextet? (c : Char) : Option Nat :=
  if c.isUpper then some (c.toNat - 'A'.toNat)
  else if c.isLower then some (c.toNat - 'a'.toNat + 26)
  else if c.isDigit then some (c.toNat - '0'.toNat + 52)
  else if c = '+' then some 62
  else if c = '/' then some 63
  else none

/-- The bytes in base 64, after `held` bits of `bits` that make no byte yet and so many padding
signs. Other characters than those of the base are passed over; the padding ends the bytes. -/
def bytesFrom? (held bits padding : Nat) : Text → Option (List UInt8)
  | [] => if held = 0 then some [] else none
  | c :: r =>
    if c = '=' then
      let filled := (if held = 4 then 2 else if held = 2 then 3 else 0)
      if filled ≠ 0 && 4 ≤ filled + padding + 1 then some []
      else bytesFrom? held bits (if filled ≠ 0 then padding + 1 else padding) r
    else
      match sextet? c with
      | none => bytesFrom? held bits padding r
      | some v =>
        let bits := bits * 64 + v
        if held = 0 then bytesFrom? 6 bits 0 r
        else
          let held := held - 2
          (bytesFrom? held (bits % Nat.pow 2 held) 0 r).map
            ((bits / Nat.pow 2 held).toUInt8 :: ·)

/-- Bytes in base 64. -/
def readBinary (s : Text) : Except Problem Value :=
  if s.all fun c => c.toNat < 128 then
    match bytesFrom? 0 0 0 s with
    | some bytes => .ok (.bytes bytes)
    | none => .error (.grammar "bytes are not well-formed base 64")
  else .error (.grammar "bytes are written in ASCII")

/-- The value of a scalar of a declared kind. -/
def read (tag : Tag) (s : Text) : Except Problem Value :=
  match tag with
  | .null => .ok .null
  | .bool =>
    match truthWords.lookup (String.ofList (Text.lower s)) with
    | some b => .ok (.bool b)
    | none => .error .badTruthValue
  | .int => readInt s
  | .float => readFloat s
  | .moment =>
    match MomentParts.ofText? s with
    | none => .error .badMoment
    | some p =>
      match p.value? with
      | none => .error .badNumber
      | some v => .ok v
  | .binary => readBinary s
  | .text => .ok (.text s)
  | _ => .error (.grammar "a scalar is declared as something else")

end Tag

end Yaml

end IgnoredPaths
