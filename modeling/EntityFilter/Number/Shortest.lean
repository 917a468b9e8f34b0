import EntityFilter.Number.Binary64

/-!
# The fewest decimal digits that read back

A double is written with the fewest significant digits that still read back as the same double,
and of the decimals with that many digits the one nearest to it is taken.  All tests are exact
comparisons of natural numbers: the double is `4 * mantissa` quarter units, and the decimals that
read back to it fill the interval up to the midpoints of its two neighbours, ends included when
the mantissa is even.

`Layout` holds what a text format decides beyond the digits: up to which exponents the number is
written without one, whether a positive exponent carries a sign, and which way a tie between two
equally near decimals goes.
-/

namespace EntityFilter

/-- A decimal `0.d₁d₂… * 10 ^ (exponent + 1)`: the digits without trailing zeros, and the exponent
of the first one. -/
structure ShortDecimal where
  /-- The significant digits, most significant first. -/
  digits : List Nat
  /-- The power of ten of the first digit. -/
  exponent : Int

namespace ShortDecimal

/-- Which of two equally near decimals is taken. -/
inductive Tie where
  /-- The one whose last digit is even. -/
  | toEven
  /-- The greater one. -/
  | up
  deriving DecidableEq

/-- A positive rational number `num / den`, compared with decimals by cross multiplication. -/
structure Scale where
  /-- The numerator of one quarter unit. -/
  num : Nat
  /-- The denominator of one quarter unit. -/
  den : Nat

namespace Scale

/-- The scale whose quarter unit is `2 ^ q`. -/
def ofExponent (q : Int) : Scale :=
  if 0 ≤ q then ⟨Nat.pow 2 q.toNat, 1⟩ else ⟨1, Nat.pow 2 (-q).toNat⟩

/-- Measure in steps of `10 ^ p`. -/
def inSteps (s : Scale) (p : Int) : Scale :=
  if 0 ≤ p then ⟨s.num, s.den * Nat.pow 10 p.toNat⟩ else ⟨s.num * Nat.pow 10 (-p).toNat, s.den⟩

/-- Whether `10 ^ p` is at most `units` quarter units. -/
def powerLe (s : Scale) (p : Int) (units : Nat) : Bool :=
  let t := s.inSteps p
  t.den ≤ units * t.num

end Scale

/-- The exponent of the first decimal digit of `units` quarter units, found from the binary length
and corrected by at most one step. -/
def leadingExponent (s : Scale) (units : Nat) (bits : Int) : Int :=
  let guess := bits * 30103 / 100000
  if s.powerLe (guess + 1) units then guess + 1
  else if s.powerLe guess units then guess
  else guess - 1

/-- The decimals with step `10 ^ p` on both sides of the value that read back to it, nearest
first; `none` when neither does. -/
def onGrid? (tie : Tie) (s : Scale) (units below above : Nat) (closed : Bool) (p : Int) :
    Option Nat :=
  let t := s.inSteps p
  let value := units * t.num
  let low := below * t.num
  let high := above * t.num
  let inside (d : Nat) : Bool :=
    if closed then low ≤ d * t.den && d * t.den ≤ high else low < d * t.den && d * t.den < high
  let down := value / t.den
  let rest := value % t.den
  let upFirst : Bool :=
    t.den < 2 * rest || (2 * rest == t.den && (tie == .up || down % 2 == 1))
  match inside down, inside (down + 1) with
  | true, true => some (if upFirst then down + 1 else down)
  | true, false => some down
  | false, true => some (down + 1)
  | false, false => none

/-- Try grids with more and more digits; seventeen always suffice. -/
def search (tie : Tie) (s : Scale) (units below above : Nat) (closed : Bool) (lead : Int) :
    Nat → Nat × Int
  | 0 => (0, 0)
  | n + 1 =>
    let p := lead - (17 - (n + 1 : Nat) : Int)
    match onGrid? tie s units below above closed p with
    | some d => (d, p)
    | none => search tie s units below above closed lead n

/-- The decimal digits of a natural number, most significant first, without trailing zeros, and
how many trailing zeros were dropped. -/
def significant (d : Nat) : List Nat × Nat :=
  let all := (toString d).toList.map fun c => c.toNat - '0'.toNat
  let kept := (all.reverse.dropWhile (· == 0)).reverse
  (kept, all.length - kept.length)

/-- The shortest decimal of a positive finite double. -/
def ofParts (tie : Tie) (p : Binary64.Parts) : ShortDecimal :=
  let units := 4 * p.mantissa
  let s := Scale.ofExponent (p.exponent - 2)
  let closed := p.mantissa % 2 == 0
  let narrow := p.mantissa == Binary64.fractions && p.exponent != -1074
  let below := units - (if narrow then 1 else 2)
  let lead := leadingExponent s units ((p.mantissa.log2 : Int) + p.exponent)
  let (d, step) := search tie s units below (units + 2) closed lead 17
  let (digits, zeros) := significant d
  { digits := digits, exponent := step + zeros + digits.length - 1 }

end ShortDecimal

/-- What a text format decides about the writing of a number, beyond its digits. -/
structure Layout where
  /-- The least exponent of the first digit that is written without an exponent. -/
  plainFrom : Int
  /-- The greatest exponent of the first digit that is written without an exponent. -/
  plainTo : Int
  /-- Whether a positive exponent is written with its sign. -/
  signsExponent : Bool
  /-- Which of two equally near shortest decimals is written. -/
  tie : ShortDecimal.Tie

namespace Layout

def digitText (ds : List Nat) : String := String.join (ds.map toString)

/-- Digits with a point: at least one digit stands on either side of it. -/
def plain (d : ShortDecimal) : String :=
  if d.exponent < 0 then
    "0." ++ digitText (List.replicate ((-d.exponent).toNat - 1) 0 ++ d.digits)
  else
    let places := d.exponent.toNat + 1
    let whole := d.digits.take places ++ List.replicate (places - d.digits.length) 0
    let fraction := d.digits.drop places
    digitText whole ++ "." ++ (if fraction.isEmpty then "0" else digitText fraction)

/-- One digit, the others behind a point if there are any, and the exponent. -/
def withExponent (signsExponent : Bool) (d : ShortDecimal) : String :=
  let first := digitText (d.digits.take 1)
  let others := d.digits.drop 1
  let mantissa := if others.isEmpty then first else first ++ "." ++ digitText others
  mantissa ++ "e" ++ (if 0 ≤ d.exponent && signsExponent then "+" else "") ++ toString d.exponent

/-- The text of a finite double. -/
def render (l : Layout) (x : Float) : String :=
  let p := Binary64.parts x
  let sign := if p.negative then "-" else ""
  if p.mantissa = 0 then sign ++ "0.0"
  else
    let d := ShortDecimal.ofParts l.tie p
    sign ++ (if l.plainFrom ≤ d.exponent && d.exponent ≤ l.plainTo then plain d
      else withExponent l.signsExponent d)

end Layout

end EntityFilter
