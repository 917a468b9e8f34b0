import EntityFilter.Pattern

/-!
# Matching regular expressions

A set of places in a text is a natural number whose binary digit `i` says whether the place before
character `i` is in it.  `Pattern.advance` sends the places where a match may begin to those where
it may end; a class shifts the places before its characters by one, and a repetition goes on until
no place is added.
-/

namespace EntityFilter

/-- A set of places between the characters of a text. -/
abbrev Places := Nat

namespace Places

/-- The places with a given character, or none, before them, that satisfy a test of the characters
before and after. -/
def filter (test : Option Char → Option Char → Bool) (before : Option Char) : List Char → Places
  | [] => (test before none).toNat
  | c :: cs => (test before (some c)).toNat + 2 * filter test (some c) cs

/-- All places of a text. -/
def all (text : List Char) : Places := Nat.pow 2 (text.length + 1) - 1

/-- Move over the next character where it satisfies a test. -/
def past (text : List Char) (test : Char → Bool) (s : Places) : Places :=
  2 * (s &&& filter (fun _ after => after.any test) none text)

/-- Apply a function at most so many times, until nothing changes. -/
def iterate (f : Places → Places) : Nat → Places → Places
  | 0, s => s
  | n + 1, s =>
    let t := f s
    if t = s then s else iterate f n t

end Places

namespace Pattern

mutual

/-- The places where a match that begins at one of the given places ends. -/
def advance (text : List Char) : Pattern → Places → Places
  | empty, s => s
  | char c, s => s.past text (· == c)
  | oneOf set, s => s.past text set.contains
  | look l, s => s &&& Places.filter l.holds none text
  | repetition least most p, s =>
    let more := match most with
      | some most => most - least
      | none => text.length + 1
    Places.iterate (fun t => t ||| advance text p t) more
      (Places.iterate (fun t => advance text p t) least s)
  | group _ p, s => advance text p s
  | concat ps, s => advanceAll text ps s
  | alternation ps, s => advanceOne text ps s

/-- The places where matches of all patterns, one after the other, end. -/
def advanceAll (text : List Char) : List Pattern → Places → Places
  | [], s => s
  | p :: ps, s => advanceAll text ps (advance text p s)

/-- The places where a match of one of the patterns ends. -/
def advanceOne (text : List Char) : List Pattern → Places → Places
  | [], _ => 0
  | p :: ps, s => advance text p s ||| advanceOne text ps s

end

/-- Whether a pattern matches somewhere in a text. -/
def matchesIn (p : Pattern) (text : String) : Bool :=
  p.advance text.toList (Places.all text.toList) != 0

end Pattern

end EntityFilter
