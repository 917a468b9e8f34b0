import EntityFilter.Text.Segment
import EntityFilter.Toml.Number
import EntityFilter.Toml.Text

/-!
# Reading configuration documents

Values are read by a machine with a stack: one level for each array or table between braces that is
open.  Each step takes at least one character, so the machine needs no more steps than there are
characters; `maxNesting` bounds how many levels may be open and how long a dotted key may be.

Lines are read one after the other: a header, or a key with a value, and nothing behind it but a
comment.
-/

namespace EntityFilter.Toml

/-- What dotted keys and levels must stay below. -/
def maxNesting : Nat := 80

/-- Whether a character may stand in a key without quotes. -/
def isKeyChar (c : Char) : Bool := c.isAlphanum || c = '_' || c = '-'

/-- One part of a key, with blanks around it. -/
def keyPart? (cs : List Char) : Option (String × List Char) :=
  let read := match cs.dropWhile isSpace with
    | '"' :: rest => quoted? rest
    | '\'' :: rest => literal? rest
    | rest =>
      let name := rest.takeWhile isKeyChar
      if name.isEmpty then none else some (name, rest.drop name.length)
  read.map fun (name, rest) => (String.ofList name, rest.dropWhile isSpace)

/-- The parts of a key, of which there are so many at most. -/
def keyParts? : Nat → List Char → Option (List String × List Char)
  | 0, _ => none
  | parts + 1, cs =>
    match keyPart? cs with
    | none => none
    | some (name, '.' :: rest) => (keyParts? parts rest).map fun (names, rest) => (name :: names, rest)
    | some (name, rest) => some ([name], rest)

/-- A key: names between points. -/
def key? (cs : List Char) : Option (List String × List Char) := keyParts? (maxNesting - 1) cs

/-- What is left of a line behind its comment, if there is one. -/
def skipComment : List Char → List Char
  | '#' :: rest => rest.dropWhile isPrintable
  | rest => rest

/-- The next line, when nothing but a comment is left of this one. -/
def lineEnd? (cs : List Char) : Option (List Char) :=
  match skipComment (cs.dropWhile isSpace) with
  | [] => some []
  | rest => newline? rest

/-- Leave out blanks, ends of lines and comments. -/
def skipLines : Nat → List Char → List Char
  | 0, cs => cs
  | steps + 1, cs =>
    match newline? (skipComment (cs.dropWhile isSpace)) with
    | some rest => skipLines steps rest
    | none => cs.dropWhile isSpace

/-- A value that is not an array or a table. -/
def scalar? (cs : List Char) : Option (Toml × List Char) :=
  match cs with
  | '"' :: _ | '\'' :: _ => (text? cs).map fun (s, rest) => (.text (String.ofList s), rest)
  | 't' :: 'r' :: 'u' :: 'e' :: rest => some (.boolean true, rest)
  | 'f' :: 'a' :: 'l' :: 's' :: 'e' :: rest => some (.boolean false, rest)
  | cs => (moment? cs).or (number? cs)

/-- An array or a table that is open. -/
inductive Level where
  | array (items : List Toml)
  | table (members : Members) (path : List String)

/-- What may come next. -/
inductive State where
  /-- A value must follow. -/
  | value
  /-- An item of an array, or its end. -/
  | item
  /-- A comma, or the end of the array. -/
  | afterItem
  /-- The first key of a table, or its end. -/
  | firstKey
  /-- A key must follow. -/
  | key
  /-- A comma, or the end of the table. -/
  | afterMember
  /-- The value is complete. -/
  | done (result : Toml)

/-- The machine: what it waits for, and the open levels, innermost first. -/
structure Machine where
  state : State := .value
  levels : List Level := []

namespace Machine

/-- Put a complete value where it belongs. -/
def put? (value : Toml) : List Level → Option Machine
  | [] => some ⟨.done value, []⟩
  | .array items :: levels => some ⟨.afterItem, .array (items ++ [value]) :: levels⟩
  | .table members path :: levels =>
    (withPairs? [(path, value)] members).map fun members =>
      ⟨.afterMember, .table members [] :: levels⟩

/-- Open a level unless too many are open. -/
def enter? (state : State) (level : Level) (levels : List Level) : Option Machine :=
  if levels.length + 1 < maxNesting then some ⟨state, level :: levels⟩ else none

/-- Read the beginning of a value. -/
def value? (levels : List Level) (cs : List Char) : Option (Machine × List Char) :=
  match cs with
  | '[' :: rest => (enter? .item (.array []) levels).map fun m => (m, rest)
  | '{' :: rest => (enter? .firstKey (.table [] []) levels).map fun m => (m, rest)
  | cs => (scalar? cs).bind fun (v, rest) => (put? v levels).map fun m => (m, rest)

/-- Read a key and the equals sign behind it. -/
def member? (members : Members) (levels : List Level) (cs : List Char) :
    Option (Machine × List Char) :=
  match key? cs with
  | some (path, '=' :: rest) =>
    some (⟨.value, .table members path :: levels⟩, rest.dropWhile isSpace)
  | _ => none

/-- Read on from a state that is not the end. -/
def step? (m : Machine) (cs : List Char) : Option (Machine × List Char) :=
  match m.state, m.levels with
  | .value, levels => value? levels cs
  | .item, .array items :: levels =>
    match skipLines cs.length cs with
    | ']' :: rest => (put? (array items) levels).map fun m => (m, rest)
    | rest => value? (.array items :: levels) rest
  | .afterItem, .array items :: levels =>
    match skipLines cs.length cs with
    | ']' :: rest => (put? (array items) levels).map fun m => (m, rest)
    | ',' :: rest => some (⟨.item, .array items :: levels⟩, rest)
    | _ => none
  | .firstKey, .table members _ :: levels =>
    match cs.dropWhile isSpace with
    | '}' :: rest => (put? (table .inline members) levels).map fun m => (m, rest)
    | rest => member? members levels rest
  | .key, .table members _ :: levels => member? members levels cs
  | .afterMember, .table members _ :: levels =>
    match cs.dropWhile isSpace with
    | '}' :: rest => (put? (table .inline members) levels).map fun m => (m, rest)
    | ',' :: rest => some (⟨.key, .table members [] :: levels⟩, rest)
    | _ => none
  | _, _ => none

/-- Read until the value is complete, in so many steps at most. -/
def run? : Nat → Machine → List Char → Option (Toml × List Char)
  | 0, _, _ => none
  | steps + 1, m, cs =>
    match m.step? cs with
    | none => none
    | some (⟨.done v, _⟩, rest) => some (v, rest)
    | some (m, rest) => run? steps m rest

end Machine

/-- A value, and what stands behind it. -/
def value? (cs : List Char) : Option (Toml × List Char) := Machine.run? (cs.length + 1) {} cs

/-- A line with something to say. -/
inductive Line where
  | header (repeats : Bool) (path : List String)
  | pair (path : List String) (value : Toml)

/-- A line that is not empty. -/
def line? (cs : List Char) : Option (Line × List Char) :=
  match cs with
  | '[' :: '[' :: rest =>
    match key? rest with
    | some (path, ']' :: ']' :: rest) => (lineEnd? rest).map fun rest => (.header true path, rest)
    | _ => none
  | '[' :: rest =>
    match key? rest with
    | some (path, ']' :: rest) => (lineEnd? rest).map fun rest => (.header false path, rest)
    | _ => none
  | cs =>
    match key? cs with
    | some (path, '=' :: rest) => do
      let (v, rest) ← value? (rest.dropWhile isSpace)
      return (.pair path v, ← lineEnd? rest)
    | _ => none

/-- The lines that say something, in so many steps at most. -/
def lines? : Nat → List Char → Option (List Line)
  | 0, _ => none
  | steps + 1, cs =>
    match skipLines cs.length cs with
    | [] => some []
    | '#' :: rest => if (rest.dropWhile isPrintable).isEmpty then some [] else none
    | rest =>
      match line? rest with
      | some (l, rest) => (lines? steps rest).map (l :: ·)
      | none => none

/-- The values in front of the first header, and the sections. -/
def sections : List Line → List (List String × Toml) × List Section
  | [] => ([], [])
  | .pair path value :: lines =>
    let (pairs, rest) := sections lines
    ((path, value) :: pairs, rest)
  | .header repeats path :: lines =>
    let (pairs, rest) := sections lines
    ([], ⟨repeats, path, pairs⟩ :: rest)

/-- The characters of a document without the mark of its byte order. -/
def withoutMark : List Char → List Char
  | '\uFEFF' :: cs => cs
  | cs => cs

/-- The members of the document that a text writes. -/
def read? (s : String) : Option Members := do
  let cs := withoutMark s.toList
  let lines ← lines? (cs.length + 1) cs
  let (pairs, rest) := sections lines
  rest.foldlM withSection? (← withPairs? pairs [])

end EntityFilter.Toml
