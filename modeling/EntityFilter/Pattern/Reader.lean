import EntityFilter.Pattern
import EntityFilter.Text.Blank
import EntityFilter.Text.Hexadecimal
import EntityFilter.Text.Letter

/-!
# Reading regular expressions

The reader goes through the characters once, with one level for each group that is open.  Each
step takes at least one character, so it ends after as many steps as there are characters.

Flags change how what follows is read, up to the end of the group in which they are set.  Under
the verbose flag blanks and comments between items are skipped.
-/

namespace EntityFilter

namespace Pattern

namespace Reader

/-- The flags that change what a pattern means. -/
structure Flags where
  /-- Letters stand for both their cases. -/
  ignoreCase : Bool := false
  /-- The anchors match at every line. -/
  multiLine : Bool := false
  /-- The dot matches line feeds too. -/
  dotAll : Bool := false
  /-- A carriage return ends a line too. -/
  crlf : Bool := false
  /-- Blanks and comments are skipped. -/
  verbose : Bool := false
  deriving DecidableEq, Repr

namespace Flags

/-- Turn a flag on or off.  Two more flags are known and change nothing here. -/
def set? (f : Flags) (name : Char) (on : Bool) : Option Flags :=
  match name with
  | 'i' => some { f with ignoreCase := on }
  | 'm' => some { f with multiLine := on }
  | 's' => some { f with dotAll := on }
  | 'R' => some { f with crlf := on }
  | 'x' => some { f with verbose := on }
  | 'U' | 'u' => some f
  | _ => none

/-- One character, or its two cases. -/
def char (f : Flags) (c : Char) : Pattern :=
  if f.ignoreCase && c.isAlpha then .oneOf (CharSet.ofList [c]).foldCase else .char c

/-- The dot. -/
def dot (f : Flags) : Pattern :=
  .oneOf (CharSet.ofList
    (if f.dotAll then [] else if f.crlf then ['\n', '\r'] else ['\n'])).complement

/-- The anchor at the beginning. -/
def caret (f : Flags) : Pattern :=
  .look (if f.multiLine then (if f.crlf then .anyLineStart else .lineStart) else .start)

/-- The anchor at the end. -/
def dollar (f : Flags) : Pattern :=
  .look (if f.multiLine then (if f.crlf then .anyLineStop else .lineStop) else .stop)

end Flags

/-- Leave out blanks and comments; a comment goes from a number sign to the end of its line. -/
def skipBlanks : Bool → List Char → List Char
  | _, [] => []
  | true, c :: cs => skipBlanks (c != '\n') cs
  | false, c :: cs =>
    if Text.isBlank c then skipBlanks false cs
    else if c = '#' then skipBlanks true cs
    else c :: cs

/-- Leave out what the flags say may be skipped. -/
def Flags.skip (f : Flags) (cs : List Char) : List Char :=
  if f.verbose then skipBlanks false cs else cs

/-- The characters that count, each with what stands behind it. -/
def significant (verbose : Bool) : Bool → List Char → List (Char × List Char)
  | _, [] => []
  | true, c :: cs => significant verbose (c != '\n') cs
  | false, c :: cs =>
    if verbose && Text.isBlank c then significant verbose false cs
    else if verbose && c = '#' then significant verbose true cs
    else (c, cs) :: significant verbose false cs

/-- The characters that count under the flags, each with what stands behind it. -/
def Flags.significant (f : Flags) (cs : List Char) : List (Char × List Char) :=
  Reader.significant f.verbose false cs

/-- A code point: so many hexadecimal digits, or any number of them between braces. -/
def hex? (f : Flags) (width : Nat) (cs : List Char) : Option (Pattern × List Char) :=
  match f.significant cs with
  | ('{', _) :: inner =>
    let digits := inner.takeWhile (·.1 != '}')
    match inner.drop digits.length with
    | ('}', after) :: _ => (Text.codePoint? (digits.map Prod.fst)).map fun c => (f.char c, after)
    | _ => none
  | characters =>
    let digits := characters.take width
    if digits.length = width then do
      let (_, after) ← digits.getLast?
      return (f.char (← Text.codePoint? (digits.map Prod.fst)), after)
    else none

/-- The word boundaries that have a name between braces. -/
def boundaries : List (String × LookAround) :=
  [("start", .wordStart), ("end", .wordStop), ("start-half", .afterNoWord),
   ("end-half", .beforeNoWord)]

/-- Whether a character may occur in the name of a word boundary. -/
def isBoundaryChar (c : Char) : Bool := c.isAlpha || c = '-'

/-- A word boundary behind its letter; braces that hold no name are left to a repetition. -/
def boundary? (f : Flags) (cs : List Char) : Option (Pattern × List Char) :=
  match cs with
  | '{' :: rest =>
    match f.significant rest with
    | [] => none
    | inner =>
      let name := inner.takeWhile (isBoundaryChar ·.1)
      if name.isEmpty then some (.look .wordEdge, cs)
      else
        match inner.drop name.length with
        | ('}', after) :: _ =>
          (boundaries.lookup (String.ofList (name.map Prod.fst))).map fun l => (.look l, after)
        | _ => none
  | cs => some (.look .wordEdge, cs)

/-- Whether a character stands for itself behind a backslash. -/
def isEscapable (c : Char) : Bool := c.val < 128 && !c.isAlphanum && c ≠ '<' && c ≠ '>'

/-- What a letter or an angle bracket stands for behind a backslash. -/
def escapeLetter? (f : Flags) (c : Char) : Option Pattern :=
  match c with
  | 'd' => some (.oneOf .digit)
  | 's' => some (.oneOf .space)
  | 'w' => some (.oneOf .word)
  | 'D' => some (.oneOf CharSet.digit.complement)
  | 'S' => some (.oneOf CharSet.space.complement)
  | 'W' => some (.oneOf CharSet.word.complement)
  | 'a' => some (f.char '\x07')
  | 'f' => some (f.char '\x0c')
  | 't' => some (f.char '\t')
  | 'n' => some (f.char '\n')
  | 'r' => some (f.char '\r')
  | 'v' => some (f.char '\x0b')
  | 'A' => some (.look .start)
  | 'z' => some (.look .stop)
  | 'B' => some (.look .noWordEdge)
  | '<' => some (.look .wordStart)
  | '>' => some (.look .wordStop)
  | _ => none

/-- What stands behind a backslash. -/
def escape? (f : Flags) : List Char → Option (Pattern × List Char)
  | [] => none
  | 'x' :: rest => hex? f 2 rest
  | 'u' :: rest => hex? f 4 rest
  | 'U' :: rest => hex? f 8 rest
  | 'b' :: rest => boundary? f rest
  | c :: rest =>
    if isEscapable c then some (f.char c, rest) else (escapeLetter? f c).map fun p => (p, rest)

/-- A number below `2 ^ 32` with blanks around it. -/
def decimal? (f : Flags) (cs : List Char) : Option (Nat × List Char) := do
  let digits := (f.significant (cs.dropWhile Text.isBlank)).takeWhile (·.1.isDigit)
  let (_, after) ← digits.getLast?
  let n := digits.foldl (fun n d => n * 10 + (d.1.toNat - '0'.toNat)) 0
  if n < Nat.pow 2 32 then some (n, (f.skip after).dropWhile Text.isBlank) else none

/-- The bounds of a counted repetition behind the opening brace. -/
def bounds? (f : Flags) (cs : List Char) : Option (Nat × Option Nat × List Char) := do
  match ← decimal? f (f.skip cs) with
  | (least, '}' :: after) => some (least, some least, after)
  | (least, ',' :: rest) =>
    match f.skip rest with
    | '}' :: after => some (least, none, after)
    | rest =>
      match ← decimal? f rest with
      | (most, '}' :: after) => if least ≤ most then some (least, some most, after) else none
      | _ => none
  | _ => none

/-- The name of a class, between `[:` and `:]`, behind the first of these brackets. -/
def namedClass? : List Char → Option (CharSet × List Char)
  | ':' :: rest =>
    let (negated, rest) := match rest with
      | '^' :: rest => (true, rest)
      | rest => (false, rest)
    let name := rest.takeWhile (· != ':')
    match rest.drop name.length with
    | ':' :: ']' :: after =>
      (CharSet.named.lookup (String.ofList name)).map fun set =>
        (if negated then set.complement else set, after)
    | _ => none
  | _ => none

/-- One item of a class: a character or an escape. -/
def classItem? (f : Flags) : List Char → Option (Pattern × List Char)
  | [] => none
  | '\\' :: rest => escape? f rest
  | c :: rest => some (.char c, rest)

/-- The characters that an item of a class stands for; a place is not one. -/
def itemRanges? : Pattern → Option (List CodeRange)
  | .char c => some [.single c]
  | .oneOf set => some set.ranges
  | _ => none

/-- The character that decides whether a hyphen is the last of a class: the first one that is
neither a blank nor the sign of a comment. -/
def peek (f : Flags) (cs : List Char) : Option Char :=
  if f.verbose then
    match cs.dropWhile Text.isBlank with
    | '#' :: inner => (inner.dropWhile Text.isBlank).head?.or cs.head?
    | c :: _ => some c
    | [] => cs.head?
  else cs.head?

/-- An item of a class, or a range between two of them.  Only single characters bound a range. -/
def classRange? (f : Flags) (cs : List Char) : Option (List CodeRange × List Char) := do
  let (first, rest) ← classItem? f cs
  match f.skip rest with
  | [] => none
  | '-' :: rest =>
    if peek f rest = some ']' ∨ peek f rest = some '-' then
      return (← itemRanges? first, '-' :: rest)
    else
      match first, ← classItem? f (f.skip rest) with
      | .char a, (.char b, after) => if h : a ≤ b then some ([.ofChars a b h], after) else none
      | _, _ => none
  | rest => return (← itemRanges? first, rest)

/-- The items of a class up to its closing bracket, in so many steps at most.  Classes do not nest
and have no operators. -/
def classItems? (f : Flags) : Nat → List CodeRange → List Char →
    Option (List CodeRange × List Char)
  | 0, _, _ => none
  | steps + 1, items, cs =>
    match f.skip cs with
    | [] => none
    | ']' :: after => some (items, after)
    | '[' :: rest =>
      match namedClass? rest with
      | some (set, after) => classItems? f steps (items ++ set.ranges) after
      | none => none
    | '&' :: '&' :: _ | '-' :: '-' :: _ | '~' :: '~' :: _ => none
    | rest =>
      match classRange? f rest with
      | some (more, after) => classItems? f steps (items ++ more) after
      | none => none

/-- A class behind its opening bracket.  Hyphens at its beginning stand for themselves, and so does
a closing bracket that is the very first.  Cases are folded before the complement is taken. -/
def class? (f : Flags) (cs : List Char) : Option (Pattern × List Char) := do
  let (negated, cs) := match f.skip cs with
    | '^' :: rest => (true, f.skip rest)
    | rest => (false, rest)
  let hyphens := (f.significant cs).takeWhile (·.1 == '-')
  let (items, cs) ← match hyphens.getLast?, cs with
    | some (_, after), _ => some (hyphens.map fun _ => CodeRange.single '-', f.skip after)
    | none, ']' :: rest => some ([CodeRange.single ']'], f.skip rest)
    | none, rest => some ([], rest)
  let (items, after) ← classItems? f (cs.length + 1) items cs
  let set := CharSet.ofRanges items
  let set := if f.ignoreCase then set.foldCase else set
  return (.oneOf (if negated then set.complement else set), after)

/-- A group that is open. -/
structure Level where
  /-- The branches before the current one. -/
  branches : List Pattern := []
  /-- The parts of the current branch, last one first. -/
  parts : List Pattern := []
  /-- The flags to go back to at the end. -/
  outer : Flags := {}
  /-- What the group captures under, if it captures. -/
  capture : Option Capture := none

/-- The pattern of a level. -/
def Level.pattern (l : Level) : Pattern :=
  .ofBranches (l.branches ++ [.ofParts l.parts.reverse])

/-- The reader: the flags, the number of groups that capture so far, their names, the innermost
level and those around it. -/
structure State where
  flags : Flags := {}
  captures : Nat := 0
  names : List String := []
  level : Level := {}
  around : List Level := []

namespace State

/-- The number of groups that may be open at a time. -/
def maxOpen : Nat := 50

/-- Add a part to the current branch. -/
def push (s : State) (p : Pattern) : State :=
  { s with level := { s.level with parts := p :: s.level.parts } }

/-- Repeat the last part of the current branch, which must have one. -/
def repeatLast? (s : State) (least : Nat) (most : Option Nat) : Option State :=
  match s.level.parts with
  | [] => none
  | p :: parts => some { s with level := { s.level with parts := .copies least most p :: parts } }

/-- Begin another branch. -/
def branch (s : State) : State :=
  { s with level :=
      { s.level with branches := s.level.branches ++ [.ofParts s.level.parts.reverse], parts := [] } }

/-- Open a group under new flags. -/
def open? (s : State) (inner : Flags) (capture : Option Capture := none) : Option State :=
  if s.around.length < maxOpen then
    some { s with
      flags := inner, level := { outer := s.flags, capture }, around := s.level :: s.around }
  else none

/-- Open a group that captures, perhaps under a name. -/
def openCapture? (s : State) (name : Option String := none) : Option State :=
  open? { s with captures := s.captures + 1, names := name.toList ++ s.names } s.flags
    (some ⟨s.captures + 1, name⟩)

/-- Close the innermost group. -/
def close? (s : State) : Option State :=
  match s.around with
  | [] => none
  | parent :: around =>
    some (push { s with flags := s.level.outer, level := parent, around }
      (.group s.level.capture s.level.pattern))

end State

/-- Flags up to the colon or parenthesis that ends them, which stays: no flag twice, at most one
minus sign, and a flag behind it. -/
def flags? (f : Flags) (seen : List Char) (off : Bool) : List Char → Option (Flags × List Char)
  | [] => none
  | c :: rest =>
    if c = ':' ∨ c = ')' then some (f, c :: rest)
    else if c = '-' then
      match rest with
      | c' :: _ => if off || c' = ':' || c' = ')' then none else flags? f seen true rest
      | [] => none
    else if seen.contains c then none
    else (f.set? c (!off)).bind fun f => flags? f (c :: seen) off rest

/-- Whether a character may occur in the name of a group. -/
def isNameChar (first : Bool) (c : Char) : Bool :=
  if first then c = '_' || Text.isAlphabetic c
  else c = '_' || c = '.' || c = '[' || c = ']' || Text.isAlphanumeric c

/-- The name of a group up to the angle bracket behind it. -/
def groupName? (cs : List Char) : Option (String × List Char) :=
  let name := cs.takeWhile (· != '>')
  match name, cs.drop name.length with
  | first :: others, '>' :: after =>
    if isNameChar true first && others.all (isNameChar false) then some (String.ofList name, after)
    else none
  | _, _ => none

/-- Open a group that captures under a name, which must be a new one. -/
def openNamed? (s : State) (cs : List Char) : Option (State × List Char) := do
  let (name, after) ← groupName? cs
  if s.names.contains name then none
  return (← s.openCapture? (some name), after)

/-- What stands behind an opening parenthesis: a group, or flags for the rest of the group around
it.  Look-around is not supported. -/
def group? (s : State) (cs : List Char) : Option (State × List Char) :=
  match s.flags.skip cs with
  | '?' :: '=' :: _ | '?' :: '!' :: _ | '?' :: '<' :: '=' :: _ | '?' :: '<' :: '!' :: _ => none
  | '?' :: 'P' :: '<' :: rest => openNamed? s rest
  | '?' :: '<' :: rest => openNamed? s rest
  | '?' :: rest => do
    match ← flags? s.flags [] false rest with
    | (f, ')' :: after) => if rest.head? = some ')' then none else some ({ s with flags := f }, after)
    | (f, _ :: after) => return (← s.open? f, after)
    | _ => none
  | rest => s.openCapture?.map fun s => (s, rest)

/-- Leave out a question mark, which makes a repetition reluctant. -/
def skipReluctant : List Char → List Char
  | '?' :: rest => rest
  | rest => rest

/-- Read one item. -/
def step? (s : State) (c : Char) (rest : List Char) : Option (State × List Char) :=
  match c with
  | '(' => group? s rest
  | ')' => s.close?.map fun s => (s, rest)
  | '|' => some (s.branch, rest)
  | '[' => (class? s.flags rest).map fun (p, after) => (s.push p, after)
  | '?' => (s.repeatLast? 0 (some 1)).map fun s => (s, skipReluctant rest)
  | '*' => (s.repeatLast? 0 none).map fun s => (s, skipReluctant rest)
  | '+' => (s.repeatLast? 1 none).map fun s => (s, skipReluctant rest)
  | '{' => do
    let (least, most, after) ← bounds? s.flags rest
    return (← s.repeatLast? least most, skipReluctant (s.flags.skip after))
  | '\\' => (escape? s.flags rest).map fun (p, after) => (s.push p, after)
  | '.' => some (s.push s.flags.dot, rest)
  | '^' => some (s.push s.flags.caret, rest)
  | '$' => some (s.push s.flags.dollar, rest)
  | c => some (s.push (s.flags.char c), rest)

/-- Read items until none are left, in so many steps at most. -/
def run? : Nat → State → List Char → Option State
  | 0, s, cs => if (s.flags.skip cs).isEmpty then some s else none
  | steps + 1, s, cs =>
    match s.flags.skip cs with
    | [] => some s
    | c :: rest =>
      match step? s c rest with
      | some (s, after) => run? steps s after
      | none => none

end Reader

/-- The pattern that a text writes, if it writes one. -/
def read? (text : String) : Option Pattern :=
  match Reader.run? text.length {} text.toList with
  | some s => if s.around.isEmpty then some s.level.pattern else none
  | none => none

end Pattern

end EntityFilter
