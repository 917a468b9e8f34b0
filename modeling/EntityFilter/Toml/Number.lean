import EntityFilter.Calendar.Reader
import EntityFilter.Number.Binary64
import EntityFilter.Text.Hexadecimal
import EntityFilter.Toml

/-!
# Numbers and moments in configuration documents

Underscores may stand between the digits of a number.  An integer has no superfluous zero in front
and fits into 64 bits; it can be written in hexadecimal, octal or binary digits too.  A moment is a
date, a time, or both, with or without an offset.
-/

namespace EntityFilter.Toml

/-- Whether underscores only stand between digits. -/
def wellSpaced : List Char → Bool
  | [] => false
  | ['_'] => false
  | '_' :: '_' :: _ => false
  | [_] => true
  | _ :: cs => wellSpaced cs

/-- The digits in front, without their underscores. -/
def digits? (isDigit : Char → Bool) (cs : List Char) : Option (List Char × List Char) :=
  let run := cs.takeWhile fun c => isDigit c || c = '_'
  if run.head? ≠ some '_' && wellSpaced run then
    some (run.filter (· ≠ '_'), cs.drop run.length)
  else none

/-- The number that digits below a base write. -/
def numberOf (base : Nat) (ds : List Char) : Nat :=
  ds.foldl (fun n c => n * base + (Text.hexValue? c).getD 0) 0

/-- An integer in another base than ten. -/
def based? (base : Nat) (cs : List Char) : Option (Toml × List Char) := do
  let (ds, rest) ← digits? (fun c => (Text.hexValue? c).any (· < base)) cs
  let n := numberOf base ds
  if (n : Int) ≤ Binary64.maxInt64 then some (.integer n, rest) else none

/-- The double nearest to a decimal. -/
def floatOf (negative : Bool) (digits : List Char) (exponent : Int) : Float :=
  let n := numberOf 10 digits
  let size : Int := (toString n).length + exponent
  let x :=
    if n = 0 ∨ size < -400 then 0.0
    else if 400 < size then Binary64.infinity
    else Float.ofScientific n (exponent < 0) exponent.natAbs
  if negative then -x else x

/-- The digits behind a point, if there is one. -/
def fraction? : List Char → Option (Option (List Char) × List Char)
  | '.' :: rest => (digits? Char.isDigit rest).map fun (ds, rest) => (some ds, rest)
  | rest => some (none, rest)

/-- A sign, if there is one. -/
def sign : List Char → Bool × List Char
  | '-' :: rest => (true, rest)
  | '+' :: rest => (false, rest)
  | rest => (false, rest)

/-- The exponent, if there is one. -/
def exponent? : List Char → Option (Option Int × List Char)
  | 'e' :: rest | 'E' :: rest => do
    let (negative, rest) := sign rest
    let (ds, rest) ← digits? Char.isDigit rest
    let n : Int := numberOf 10 ds
    return (some (if negative then -n else n), rest)
  | rest => some (none, rest)

/-- An integer or a double in decimal digits behind its sign.  A double must not be too great. -/
def decimal? (negative : Bool) (cs : List Char) : Option (Toml × List Char) := do
  let (whole, rest) ← digits? Char.isDigit cs
  if 1 < whole.length && whole.head? = some '0' then none
  let (fraction, rest) ← fraction? rest
  let (exponent, rest) ← exponent? rest
  if fraction.isNone && exponent.isNone then
    let n : Int := numberOf 10 whole
    let i := if negative then -n else n
    if Binary64.minInt64 ≤ i ∧ i ≤ Binary64.maxInt64 then some (.integer i, rest) else none
  else
    let places := fraction.getD []
    let x := floatOf negative (whole ++ places) (exponent.getD 0 - places.length)
    if !negative && !Binary64.isFinite x then none else some (.float x, rest)

/-- A number. -/
def number? : List Char → Option (Toml × List Char)
  | '0' :: 'x' :: rest => based? 16 rest
  | '0' :: 'o' :: rest => based? 8 rest
  | '0' :: 'b' :: rest => based? 2 rest
  | cs =>
    let (negative, rest) := sign cs
    match rest with
    | 'i' :: 'n' :: 'f' :: rest =>
      some (.float (if negative then -Binary64.infinity else Binary64.infinity), rest)
    | 'n' :: 'a' :: 'n' :: rest => some (.float (0.0 / 0.0), rest)
    | rest => decimal? negative rest

/-- A time of day; second 60 is a leap second. -/
def time? (cs : List Char) : Option (List Char) := do
  let (hour, cs) ← Calendar.exactNumber? 2 cs
  let cs ← Calendar.mark? ':' cs
  let (minute, cs) ← Calendar.exactNumber? 2 cs
  let cs ← Calendar.mark? ':' cs
  let (second, cs) ← Calendar.exactNumber? 2 cs
  if 24 ≤ hour || 60 ≤ minute || 60 < second then none
  match cs with
  | '.' :: rest =>
    let ds := rest.takeWhile Char.isDigit
    if ds.isEmpty then none else some (rest.drop ds.length)
  | rest => some rest

/-- What is left behind an offset, if there is one. -/
def offset? (cs : List Char) : Option (List Char) :=
  match cs with
  | 'Z' :: rest | 'z' :: rest => some rest
  | '+' :: rest | '-' :: rest => do
    let (hour, rest) ← Calendar.exactNumber? 2 rest
    let rest ← Calendar.mark? ':' rest
    let (minute, rest) ← Calendar.exactNumber? 2 rest
    if 24 ≤ hour || 60 ≤ minute then none else some rest
  | rest => some rest

/-- A date. -/
def date? (cs : List Char) : Option (List Char) := do
  let (year, cs) ← Calendar.exactNumber? 4 cs
  let cs ← Calendar.mark? '-' cs
  let (month, cs) ← Calendar.exactNumber? 2 cs
  let cs ← Calendar.mark? '-' cs
  let (day, cs) ← Calendar.exactNumber? 2 cs
  (Date.ofCivil? year month day).map fun _ => cs

/-- What is left behind a moment: a date, a date and a time with or without an offset, or a
time. -/
def afterMoment? (cs : List Char) : Option (List Char) :=
  match date? cs with
  | none => time? cs
  | some rest =>
    match rest with
    | 'T' :: inner | 't' :: inner | ' ' :: inner =>
      match time? inner with
      | some rest => offset? rest
      | none => some rest
    | rest => some rest

/-- A moment. -/
def moment? (cs : List Char) : Option (Toml × List Char) :=
  (afterMoment? cs).map fun rest =>
    (.moment (String.ofList (cs.take (cs.length - rest.length))), rest)

end EntityFilter.Toml
