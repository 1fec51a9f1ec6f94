import IgnoredPaths.Decimal.Layout
import IgnoredPaths.Text.Quoted

/-!
# Values in a configuration

A configuration file holds values of any shape; what is made of them is checked afterwards.
Mappings keep the order in which their keys first came up.

- `Value`: the values.
- `Value.sameKey`: when two values are the same key. Numbers are so by what they count,
  whatever their kind, and a truth value counts as zero or one; what is no number is one key.
- `Value.put`: an entry more in a mapping, in place of one with the same key.
- `Value.shown`: a value in a message.
-/

namespace IgnoredPaths

/-- A moment: its date, the microseconds since midnight, and its distance from universal time in
seconds if that is known. -/
structure Moment where
  year : Nat
  month : Nat
  day : Nat
  microseconds : Nat
  offset : Option Int
  deriving DecidableEq

/-- A value in a configuration. -/
inductive Value where
  | null
  | bool (b : Bool)
  | int (n : Int)
  | float (f : Float)
  | text (s : Text)
  | list (items : List Value)
  | mapping (entries : List (Value × Value))
  | pair (first second : Value)
  | set (items : List Value)
  | bytes (b : List UInt8)
  | date (year month day : Nat)
  | moment (m : Moment)
  deriving Inhabited

namespace Value

/-! ## Keys -/

/-- The whole number that a value counts as, if it counts as one. -/
def whole? : Value → Option Int
  | .bool b => some (if b then 1 else 0)
  | .int n => some n
  | .float f =>
    match Binary.ofFloat? f with
    | none => if f == 0.0 then some 0 else none
    | some x =>
      let (num, den) := Binary.sides x.mantissa x.exponent 1 0
      if num % den = 0 then
        some (if f < 0.0 then -((num / den : Nat) : Int) else ((num / den : Nat) : Int))
      else none
  | _ => none

/-- Days before a date, counted from a fixed day. -/
def dayNumber (year month day : Nat) : Int :=
  let y := if month ≤ 2 then year - 1 else year
  let m := if month ≤ 2 then month + 9 else month - 3
  (365 * y + y / 4 + y / 400 + (153 * m + 2) / 5 + day : Nat) - (y / 100 : Nat)

/-- The microseconds of a moment in universal time, or in its own time if that is unknown. -/
def instant (m : Moment) : Int :=
  (dayNumber m.year m.month m.day * 86400 - m.offset.getD 0) * 1000000 + m.microseconds

/-- Whether two values are the same key. -/
def sameKey (a b : Value) : Bool :=
  match a, b with
  | .null, .null => true
  | .text s, .text t => s = t
  | .bytes s, .bytes t => s = t
  | .date y m d, .date y' m' d' => y = y' && m = m' && d = d'
  | .moment m, .moment n => m.offset.isSome = n.offset.isSome && instant m = instant n
  | .float f, .float g => f == g || (f.isNaN && g.isNaN)
  | a, b =>
    match whole? a, whole? b with
    | some m, some n => m = n
    | _, _ => false

/-- Whether a value may be a key: lists, mappings and sets may not. -/
def isKey : Value → Bool
  | .list _ | .mapping _ | .set _ => false
  | .pair a b => a.isKey && b.isKey
  | _ => true

/-- An entry more in a mapping; the value of an old entry with the same key is replaced. -/
def put (key value : Value) : List (Value × Value) → List (Value × Value)
  | [] => [(key, value)]
  | (k, v) :: rest => if k.sameKey key then (k, value) :: rest else (k, v) :: put key value rest

/-- The value of a text key in a mapping. -/
def field? (name : Text) : List (Value × Value) → Option Value
  | [] => none
  | (k, v) :: rest => if k.sameKey (.text name) then some v else field? name rest

/-! ## Messages -/

/-- Separated by a comma and a blank. -/
def separated : List Text → Text
  | [] => []
  | [s] => s
  | s :: rest => s ++ ", ".toList ++ separated rest

/-- A date as in `2001-12-14`. -/
def shownDate (year month day : Nat) : Text :=
  Text.padded 10 4 year ++ '-' :: Text.padded 10 2 month ++ '-' :: Text.padded 10 2 day

/-- A span of time as in `21:59:43.100000`; seconds are left out if `brief` and zero. -/
def shownTime (brief : Bool) (microseconds : Nat) : Text :=
  let seconds := microseconds / 1000000
  let fraction := microseconds % 1000000
  Text.padded 10 2 (seconds / 3600) ++ ':' :: Text.padded 10 2 (seconds / 60 % 60)
    ++ (if brief && seconds % 60 = 0 && fraction = 0 then []
        else ':' :: Text.padded 10 2 (seconds % 60))
    ++ (if fraction = 0 then [] else '.' :: Text.padded 10 6 fraction)

/-- A moment as in `2001-12-14 21:59:43+01:00`. -/
def shownMoment (m : Moment) : Text :=
  shownDate m.year m.month m.day ++ ' ' :: shownTime false m.microseconds
    ++ match m.offset with
      | none => []
      | some offset => (if offset < 0 then '-' else '+') :: shownTime true (offset.natAbs * 1000000)

/-- A byte between quotes. -/
def quotedByte (quote : Char) (b : UInt8) : Text :=
  let c := Char.ofNat b.toNat
  if c = quote || c = '\\' then ['\\', c]
  else if c = '\n' then ['\\', 'n']
  else if c = '\r' then ['\\', 'r']
  else if c = '\t' then ['\\', 't']
  else if b < 0x20 || 0x7F ≤ b then '\\' :: 'x' :: Text.padded 16 2 b.toNat
  else [c]

/-- The written form of bytes. -/
def writtenBytes (b : List UInt8) : Text :=
  let quote := if b.contains 39 && !b.contains 34 then '"' else '\''
  'b' :: quote :: b.flatMap (quotedByte quote) ++ [quote]

/-- The written form of a distance from universal time. -/
def writtenOffset (offset : Int) : Text :=
  if offset = 0 then "datetime.timezone.utc".toList
  else
    let days := offset / 86400
    let seconds := offset % 86400
    let shownDays := if days = 0 then [] else "days=".toList ++ Text.ofInt days
    let shownSeconds := if seconds = 0 then [] else "seconds=".toList ++ Text.ofInt seconds
    "datetime.timezone(datetime.timedelta(".toList
      ++ separated ([shownDays, shownSeconds].filter (· ≠ [])) ++ "))".toList

/-- The written form of a moment, without trailing zeros among its parts below the minute. -/
def writtenMoment (m : Moment) : Text :=
  let seconds := m.microseconds / 1000000
  let fraction := m.microseconds % 1000000
  let parts := [m.year, m.month, m.day, seconds / 3600, seconds / 60 % 60]
    ++ (if fraction ≠ 0 then [seconds % 60, fraction]
        else if seconds % 60 ≠ 0 then [seconds % 60] else [])
  let zone := m.offset.elim [] fun offset => ["tzinfo=".toList ++ writtenOffset offset]
  "datetime.datetime(".toList ++ separated (parts.map Text.ofNat ++ zone) ++ [')']

/-- An opening brace, text, and a closing brace. -/
def inBraces (s : Text) : Text := '\x7b' :: s ++ ['\x7d']

mutual

/-- The written form of a value inside another one. -/
def written : Value → Text
  | .null => "None".toList
  | .bool b => (if b then "True" else "False").toList
  | .int n => Text.ofInt n
  | .float f => Layout.plain.render f
  | .text s => Text.quoted s
  | .list items => '[' :: separated (writtenItems items) ++ [']']
  | .mapping entries => inBraces (separated (writtenEntries entries))
  | .pair a b => '(' :: a.written ++ ',' :: ' ' :: b.written ++ [')']
  | .set items =>
    if items.isEmpty then "set()".toList else inBraces (separated (writtenItems items))
  | .bytes b => writtenBytes b
  | .date y m d => "datetime.date(".toList ++ separated ([y, m, d].map Text.ofNat) ++ [')']
  | .moment m => writtenMoment m

/-- The written forms of items. -/
def writtenItems : List Value → List Text
  | [] => []
  | v :: rest => v.written :: writtenItems rest

/-- The written forms of entries. -/
def writtenEntries : List (Value × Value) → List Text
  | [] => []
  | (k, v) :: rest => (k.written ++ ':' :: ' ' :: v.written) :: writtenEntries rest

end

/-- A value in a message: texts, dates and moments as they are, all else in its written form. -/
def shown : Value → Text
  | .text s => s
  | .date y m d => shownDate y m d
  | .moment m => shownMoment m
  | v => v.written

end Value

end IgnoredPaths
