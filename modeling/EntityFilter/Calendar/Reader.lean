import EntityFilter.Calendar.Instant
import EntityFilter.Text.Blank

/-!
# Reading dates and instants

A date is written `2024-01-05`.  Blanks may stand before each number, month and day may have one
digit, and a year of more than four digits needs a sign.

An instant is written in the form of RFC 3339, or as a date and a time in Universal Time without
an offset, with the letter `T` or any number of blanks between them.  Second 60 is a leap second
in any minute.
-/

namespace EntityFilter.Calendar

/-- The number that digits write. -/
def numberOf (ds : List Char) : Nat := ds.foldl (fun n c => n * 10 + (c.toNat - '0'.toNat)) 0

/-- A number of at least one and at most `width` digits. -/
def number? (width : Nat) (cs : List Char) : Option (Nat × List Char) :=
  match (cs.takeWhile Char.isDigit).take width with
  | [] => none
  | ds => some (numberOf ds, cs.drop ds.length)

/-- A number of exactly `width` digits. -/
def exactNumber? (width : Nat) (cs : List Char) : Option (Nat × List Char) :=
  let ds := (cs.takeWhile Char.isDigit).take width
  if ds.length = width then some (numberOf ds, cs.drop width) else none

/-- The given character. -/
def mark? (c : Char) : List Char → Option (List Char)
  | c' :: rest => if c' = c then some rest else none
  | [] => none

/-- A number of one or two digits behind any number of blanks. -/
def loose? (cs : List Char) : Option (Nat × List Char) := number? 2 (cs.dropWhile Text.isBlank)

/-- A year behind any number of blanks: up to four digits, or any number of digits with a sign. -/
def year? (cs : List Char) : Option (Int × List Char) :=
  match cs.dropWhile Text.isBlank with
  | '-' :: rest => (number? rest.length rest).map fun (n, after) => (-(n : Int), after)
  | '+' :: rest => (number? rest.length rest).map fun (n, after) => ((n : Int), after)
  | rest => (number? 4 rest).map fun (n, after) => ((n : Int), after)

/-- A date, and what stands behind it. -/
def date? (cs : List Char) : Option (Date × List Char) := do
  let (year, cs) ← year? cs
  let cs ← mark? '-' cs
  let (month, cs) ← loose? cs
  let cs ← mark? '-' cs
  let (day, cs) ← loose? cs
  return (← Date.ofCivil? year month day, cs)

/-- The instant of a local time with the offset of its clock from Universal Time, in seconds. -/
def instant? (d : Date) (hour minute second nano : Nat) (offset : Int) : Option Instant :=
  if hour < 24 ∧ minute < 60 ∧ second ≤ 60 then
    let leap := second = 60
    some
      { second := d.day * Instant.daySeconds + hour * 3600 + minute * 60 +
          (if leap then 59 else second) - offset
        nano := nano + (if leap then Instant.secondNanos else 0) }
  else none

/-- A time without an offset behind a date. -/
def naiveTime? (d : Date) (cs : List Char) : Option Instant := do
  let (hour, cs) ← loose? cs
  let cs ← mark? ':' cs
  let (minute, cs) ← loose? cs
  let cs ← mark? ':' cs
  let (second, cs) ← loose? cs
  if cs.isEmpty then instant? d hour minute second 0 0 else none

/-- The nanoseconds of a fraction; digits past the ninth are left out. -/
def fraction? (cs : List Char) : Option (Nat × List Char) :=
  match cs with
  | '.' :: rest =>
    match rest.takeWhile Char.isDigit with
    | [] => none
    | ds =>
      let nine := ds.take 9
      some (numberOf nine * Nat.pow 10 (9 - nine.length), rest.drop ds.length)
  | cs => some (0, cs)

/-- An offset of less than a day, in seconds. -/
def offset? : List Char → Option Int
  | ['Z'] => some 0
  | ['z'] => some 0
  | sign :: rest => do
    let negative ←
      if sign = '+' then some false else if sign = '-' ∨ sign = '\u2212' then some true else none
    let (hours, rest) ← exactNumber? 2 rest
    let rest ← mark? ':' rest
    let (minutes, rest) ← exactNumber? 2 rest
    if rest.isEmpty ∧ minutes < 60 ∧ hours < 24 then
      let seconds : Int := hours * 3600 + minutes * 60
      some (if negative then -seconds else seconds)
    else none
  | [] => none

/-- An instant in the form of RFC 3339. -/
def zoned? (cs : List Char) : Option Instant := do
  let (year, cs) ← exactNumber? 4 cs
  let cs ← mark? '-' cs
  let (month, cs) ← exactNumber? 2 cs
  let cs ← mark? '-' cs
  let (day, cs) ← exactNumber? 2 cs
  let cs ← match cs with
    | 'T' :: rest | 't' :: rest | ' ' :: rest => some rest
    | _ => none
  let (hour, cs) ← exactNumber? 2 cs
  let cs ← mark? ':' cs
  let (minute, cs) ← exactNumber? 2 cs
  let cs ← mark? ':' cs
  let (second, cs) ← exactNumber? 2 cs
  let (nano, cs) ← fraction? cs
  let offset ← offset? cs
  instant? (← Date.ofCivil? year month day) hour minute second nano offset

/-- An instant without an offset: a date, a separator and a time. -/
def naive? (cs : List Char) : Option Instant :=
  match date? cs with
  | none => none
  | some (d, rest) =>
    match (mark? 'T' rest).bind (naiveTime? d) with
    | some t => some t
    | none => naiveTime? d (rest.dropWhile Text.isBlank)

end EntityFilter.Calendar

namespace EntityFilter

/-- The date that a text writes. -/
def Date.read? (s : String) : Option Date :=
  match Calendar.date? s.toList with
  | some (d, []) => some d
  | _ => none

/-- The instant that a text writes with an offset. -/
def Instant.readZoned? (s : String) : Option Instant := Calendar.zoned? s.toList

/-- The instant that a text writes, in Universal Time when it has no offset. -/
def Instant.read? (s : String) : Option Instant :=
  match Calendar.zoned? s.toList with
  | some t => some t
  | none => Calendar.naive? s.toList

end EntityFilter
