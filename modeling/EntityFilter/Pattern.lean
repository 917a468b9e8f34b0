import EntityFilter.Pattern.CharSet

/-!
# Regular expressions

A pattern is the tree of a regular expression.  Letters have two cases, and words are made of
letters, digits and underscores, in ASCII only.  What a group captures under makes no difference to
what it matches.
-/

namespace EntityFilter

/-- A condition on the place between two characters. -/
inductive LookAround where
  /-- The beginning of the text. -/
  | start
  /-- The end of the text. -/
  | stop
  /-- The beginning of a line. -/
  | lineStart
  /-- The end of a line. -/
  | lineStop
  /-- The beginning of a line, where a carriage return with or without a line feed ends one too. -/
  | anyLineStart
  /-- The end of a line, where a carriage return with or without a line feed ends one too. -/
  | anyLineStop
  /-- The beginning or the end of a word. -/
  | wordEdge
  /-- Neither the beginning nor the end of a word. -/
  | noWordEdge
  /-- The beginning of a word. -/
  | wordStart
  /-- The end of a word. -/
  | wordStop
  /-- No word character stands before the place. -/
  | afterNoWord
  /-- No word character stands after the place. -/
  | beforeNoWord
  deriving DecidableEq, Repr

namespace LookAround

/-- Whether a word character is there. -/
def isWord (c : Option Char) : Bool := c.any CharSet.word.contains

/-- Whether the condition holds between two characters, which are missing at the ends of the
text. -/
def holds (l : LookAround) (before after : Option Char) : Bool :=
  match l with
  | start => before.isNone
  | stop => after.isNone
  | lineStart => before.isNone || before == some '\n'
  | lineStop => after.isNone || after == some '\n'
  | anyLineStart =>
    before.isNone || before == some '\n' || (before == some '\r' && after != some '\n')
  | anyLineStop => after.isNone || after == some '\r' || (after == some '\n' && before != some '\r')
  | wordEdge => isWord before != isWord after
  | noWordEdge => isWord before == isWord after
  | wordStart => !isWord before && isWord after
  | wordStop => isWord before && !isWord after
  | afterNoWord => !isWord before
  | beforeNoWord => !isWord after

end LookAround

/-- What a group captures under. -/
structure Capture where
  /-- The number of the group, from one on in the order of their opening parentheses. -/
  number : Nat
  /-- The name of the group, if it has one. -/
  name : Option String
  deriving DecidableEq, Repr

/-- A regular expression. -/
inductive Pattern where
  /-- The empty text. -/
  | empty
  /-- One character. -/
  | char (c : Char)
  /-- A character of a set. -/
  | oneOf (set : CharSet)
  /-- The empty text at a place. -/
  | look (condition : LookAround)
  /-- At least `least` and at most `most` copies; any number of them without `most`. -/
  | repetition (least : Nat) (most : Option Nat) (body : Pattern)
  /-- A group, which may capture. -/
  | group (capture : Option Capture) (body : Pattern)
  /-- One after the other. -/
  | concat (parts : List Pattern)
  /-- One or another. -/
  | alternation (branches : List Pattern)
  deriving Inhabited

namespace Pattern

/-- Patterns one after the other; a pattern alone stands for itself. -/
def ofParts : List Pattern → Pattern
  | [] => empty
  | [p] => p
  | ps => concat ps

/-- One of several patterns; a pattern alone stands for itself. -/
def ofBranches : List Pattern → Pattern
  | [p] => p
  | ps => alternation ps

/-- Copies of a pattern; none at all is the empty text, and exactly one is the pattern itself. -/
def copies (least : Nat) (most : Option Nat) (p : Pattern) : Pattern :=
  if most = some 0 then empty
  else if least = 1 ∧ most = some 1 then p
  else repetition least most p

end Pattern

end EntityFilter
