import EntityFilter.Text.Blank

/-!
# Shapes that invite backtracking

A repetition of a group that repeats without bound inside, or has alternatives inside, can make a
backtracking matcher run for a very long time.  Such shapes are found on the text of a pattern: a
scanner reads the characters from left to right and keeps, for each open group, whether its body
repeats without bound and whether it has alternatives.  What belongs to an escape, to a class or to
the beginning of a group is passed over.
-/

namespace EntityFilter

namespace Pattern

/-- Why a pattern may run for a very long time. -/
inductive Danger where
  /-- A group that repeats without bound is repeated without bound. -/
  | nestedRepetition
  /-- A group with alternatives is repeated without bound. -/
  | repeatedAlternation
  /-- A group that repeats without bound is repeated a counted number of times. -/
  | countedRepetition
  deriving DecidableEq, Repr

/-- The wording of a danger. -/
def Danger.message : Danger → String
  | nestedRepetition => "nested unbounded quantifiers"
  | repeatedAlternation => "alternation under an unbounded quantifier"
  | countedRepetition => "quantified group under a counted repetition"

namespace Shape

/-- What the body of a group has inside. -/
structure Body where
  /-- A repetition without bound. -/
  unbounded : Bool := false
  /-- An alternative. -/
  alternation : Bool := false
  deriving DecidableEq

/-- How often a repetition repeats. -/
inductive Count where
  /-- At most once, or a fixed number of times. -/
  | few
  /-- At most a given number of times above one. -/
  | counted
  /-- Without bound. -/
  | unbounded
  deriving DecidableEq

/-- The danger of repeating a body. -/
def Count.danger? (n : Count) (b : Body) : Option Danger :=
  match n with
  | unbounded =>
    if b.unbounded then some .nestedRepetition
    else if b.alternation then some .repeatedAlternation
    else none
  | counted => if b.unbounded then some .countedRepetition else none
  | few => none

/-- A number below `2 ^ 32`, between blanks and with an optional plus sign. -/
def number? (cs : List Char) : Option Nat :=
  let digits := match Text.stripWhile Text.isBlank cs with
    | '+' :: rest => rest
    | rest => rest
  let n := digits.foldl (fun n c => n * 10 + (c.toNat - '0'.toNat)) 0
  if !digits.isEmpty && digits.all Char.isDigit && n < Nat.pow 2 32 then some n else none

/-- What the text between two braces says. -/
def countOf? (body : List Char) : Option Count :=
  let least := body.takeWhile (· != ',')
  (number? least).bind fun _ =>
    match body.drop least.length with
    | _ :: most =>
      if (Text.stripWhile Text.isBlank most).isEmpty then some .unbounded
      else (number? most).map fun n => if n ≤ 1 then .few else .counted
    | [] => some .few

/-- A counted repetition behind its opening brace, and the number of characters up to the closing
one. -/
def counted? (rest : List Char) : Option (Count × Nat) :=
  let body := rest.takeWhile (· != '}')
  if body.length < rest.length then (countOf? body).map fun n => (n, body.length + 1) else none

/-- What the scanner is inside of. -/
inductive Mode where
  /-- Nothing special. -/
  | plain
  /-- Behind a backslash. -/
  | escape
  /-- Behind an escape that braces may follow. -/
  | beforeBrace
  /-- Between these braces. -/
  | braces
  /-- Behind the bracket that opens a class. -/
  | classStart
  /-- At the first character of a class. -/
  | classFirst
  /-- In a class with so many brackets open besides its own. -/
  | inClass (depth : Nat)
  /-- Behind a backslash in a class. -/
  | classEscape (depth : Nat)
  /-- Behind an opening parenthesis. -/
  | groupStart
  /-- Behind an opening parenthesis and a question mark. -/
  | groupFlags
  /-- In a counted repetition with so many characters left. -/
  | skipping (left : Nat)
  deriving DecidableEq

/-- The scanner: where it is, the body of the innermost group and those around it, and the body of
the group that has just been closed. -/
structure State where
  mode : Mode := .plain
  body : Body := {}
  around : List Body := []
  closed : Option Body := none

/-- Repeat what stands before. -/
def State.repeatLast (s : State) (n : Count) (mode : Mode) : Except Danger State :=
  match s.closed.bind n.danger? with
  | some d => .error d
  | none =>
    .ok { s with
      mode
      closed := none
      body := { s.body with unbounded := s.body.unbounded || n == .unbounded } }

/-- Read a character that is no repetition. -/
def State.item (s : State) (c : Char) : State :=
  let s := { s with mode := .plain, closed := none }
  match c with
  | '\\' => { s with mode := .escape }
  | '[' => { s with mode := .classStart }
  | '(' => { s with mode := .groupStart, body := {}, around := s.body :: s.around }
  | ')' =>
    match s.around with
    | [] => s
    | parent :: around =>
      { s with
        body := ⟨parent.unbounded || s.body.unbounded, parent.alternation || s.body.alternation⟩
        around
        closed := some s.body }
  | '|' => { s with body := { s.body with alternation := true } }
  | _ => s

/-- Read a character outside escapes and classes, given those behind it. -/
def State.plain (s : State) (c : Char) (rest : List Char) : Except Danger State :=
  match c with
  | '*' | '+' => s.repeatLast .unbounded .plain
  | '?' => s.repeatLast .few .plain
  | '{' =>
    match counted? rest with
    | some (n, length) => s.repeatLast n (.skipping length)
    | none => .ok (s.item c)
  | c => .ok (s.item c)

/-- Read a character of a class. -/
def State.classChar (s : State) (depth : Nat) (c : Char) : State :=
  match c with
  | '\\' => { s with mode := .classEscape depth }
  | '[' => { s with mode := .inClass (depth + 1) }
  | ']' =>
    match depth with
    | 0 => { s with mode := .plain }
    | depth + 1 => { s with mode := .inClass depth }
  | _ => { s with mode := .inClass depth }

/-- Read a character, given those behind it. -/
def State.step (s : State) (c : Char) (rest : List Char) : Except Danger State :=
  match s.mode with
  | .plain => s.plain c rest
  | .escape =>
    .ok { s with mode := if "pPxuU".toList.contains c then .beforeBrace else .plain }
  | .beforeBrace => if c = '{' then .ok { s with mode := .braces } else s.plain c rest
  | .braces => .ok { s with mode := if c = '}' then .plain else .braces }
  | .classStart =>
    if c = '^' then .ok { s with mode := .classFirst }
    else if c = ']' then .ok { s with mode := .inClass 0 }
    else .ok (s.classChar 0 c)
  | .classFirst => .ok (if c = ']' then { s with mode := .inClass 0 } else s.classChar 0 c)
  | .inClass depth => .ok (s.classChar depth c)
  | .classEscape depth => .ok { s with mode := .inClass depth }
  | .groupStart => if c = '?' then .ok { s with mode := .groupFlags } else s.plain c rest
  | .groupFlags =>
    if c = ')' then s.plain c rest
    else .ok { s with mode := if c = ':' ∨ c = '>' then .plain else .groupFlags }
  | .skipping left => .ok { s with mode := if left ≤ 1 then .plain else .skipping (left - 1) }

/-- Read all characters. -/
def scan (s : State) : List Char → Option Danger
  | [] => none
  | c :: rest =>
    match s.step c rest with
    | .error d => some d
    | .ok s => scan s rest

end Shape

/-- The first danger in the text of a pattern that can be compiled. -/
def danger? (text : String) : Option Danger := Shape.scan {} text.toList

end Pattern

end EntityFilter
