import EntityFilter.Document
import EntityFilter.Number.Scaled
import EntityFilter.Text.Hexadecimal

/-!
# Tokens of a written document

The text of a document is first cut into tokens: the six marks, and scalars that are complete
documents by themselves.  Blanks between tokens are the space, the tab, the line feed and the
carriage return.

Every scanner takes the characters that belong to it from the front of the list and returns the
rest; `scan` ends because what each token leaves is shorter than what it was given.
-/

namespace EntityFilter

namespace Document

/-- A piece of a written document. -/
inductive Token where
  | beginArray
  | endArray
  | beginObject
  | endObject
  | colon
  | comma
  | scalar (value : Document)

namespace Token

/-- What the character after a backslash stands for, if it is not a code point in hexadecimal. -/
def escaped? (c : Char) : Option Char :=
  if c = '"' ∨ c = '\\' ∨ c = '/' then some c
  else if c = 'b' then some '\x08'
  else if c = 'f' then some '\x0c'
  else if c = 'n' then some '\n'
  else if c = 'r' then some '\r'
  else if c = 't' then some '\t'
  else none

/-- The characters up to the closing quote, and the rest behind it.  A code point above U+FFFF is
written as two surrogates, and a surrogate that stands alone is refused. -/
def scanText : List Char → Option (List Char × List Char)
  | [] => none
  | '"' :: rest => some ([], rest)
  | '\\' :: 'u' :: a :: b :: c :: d :: rest =>
    match Text.hexNumber? [a, b, c, d] with
    | none => none
    | some n =>
      if 0xD800 ≤ n ∧ n < 0xDC00 then
        match rest with
        | '\\' :: 'u' :: a' :: b' :: c' :: d' :: rest' =>
          match Text.hexNumber? [a', b', c', d'] with
          | none => none
          | some low =>
            if 0xDC00 ≤ low ∧ low < 0xE000 then
              (scanText rest').map fun (cs, after) =>
                (Char.ofNat (0x10000 + (n - 0xD800) * 0x400 + (low - 0xDC00)) :: cs, after)
            else none
        | _ => none
      else if 0xDC00 ≤ n ∧ n < 0xE000 then none
      else (scanText rest).map fun (cs, after) => (Char.ofNat n :: cs, after)
  | '\\' :: c :: rest =>
    match escaped? c with
    | some e => (scanText rest).map fun (cs, after) => (e :: cs, after)
    | none => none
  | c :: rest =>
    if c.toNat < 0x20 ∨ c = '\\' then none
    else (scanText rest).map fun (cs, after) => (c :: cs, after)

/-- The digits in front. -/
def digits (cs : List Char) : List Nat × List Char :=
  ((cs.takeWhile Char.isDigit).map fun c => c.toNat - '0'.toNat, cs.dropWhile Char.isDigit)

/-- The digits of an exponent, with its sign. -/
def exponent? (cs : List Char) : Option (Int × List Char) :=
  let (negative, cs) := match cs with
    | '+' :: rest => (false, rest)
    | '-' :: rest => (true, rest)
    | rest => (false, rest)
  match digits cs with
  | ([], _) => none
  | (ds, rest) =>
    let n : Nat := ds.foldl (fun n d => n * 10 + d) 0
    some (if negative then -(n : Int) else (n : Int), rest)

/-- The numeral in front: no superfluous zero leads, and digits stand on both sides of a point. -/
def numeral? (cs : List Char) : Option (Numeral × List Char) := do
  let (negative, cs) := match cs with
    | '-' :: rest => (true, rest)
    | rest => (false, rest)
  let (whole, cs) := digits cs
  if whole.isEmpty || (whole.length > 1 && whole.head? == some 0) then none
  let (fraction, cs) ← match cs with
    | '.' :: rest =>
      match digits rest with
      | ([], _) => none
      | (ds, rest) => some (some ds, rest)
    | rest => some (none, rest)
  let (exponent, cs) ← match cs with
    | 'e' :: rest | 'E' :: rest => (exponent? rest).map fun (e, rest) => (some e, rest)
    | rest => some (none, rest)
  return ({ negative, whole, fraction, exponent }, cs)

/-- A numeral as a document: an integer when it is written as one and fits, else a double. -/
def ofNumeral? (n : Numeral) : Option Document :=
  match n.toInt? with
  | some i => some (int i)
  | none => n.toFloat?.map float

/-- The token in front of a text that starts with neither blank nor nothing. -/
def next? : List Char → Option (Token × List Char)
  | '[' :: rest => some (beginArray, rest)
  | ']' :: rest => some (endArray, rest)
  | '{' :: rest => some (beginObject, rest)
  | '}' :: rest => some (endObject, rest)
  | ':' :: rest => some (colon, rest)
  | ',' :: rest => some (comma, rest)
  | '"' :: rest => (scanText rest).map fun (cs, after) => (scalar (text (String.ofList cs)), after)
  | 't' :: 'r' :: 'u' :: 'e' :: rest => some (scalar (bool true), rest)
  | 'f' :: 'a' :: 'l' :: 's' :: 'e' :: rest => some (scalar (bool false), rest)
  | 'n' :: 'u' :: 'l' :: 'l' :: rest => some (scalar null, rest)
  | cs => do
    let (n, rest) ← numeral? cs
    return (scalar (← ofNumeral? n), rest)

/-- Whether a character may stand between tokens. -/
def isSeparator (c : Char) : Bool := c = ' ' || c = '\t' || c = '\n' || c = '\r'

/-- The tokens of a text. -/
def scan (cs : List Char) : Option (List Token) :=
  match cs.dropWhile isSeparator with
  | [] => some []
  | c :: rest =>
    match next? (c :: rest) with
    | none => none
    | some (token, after) =>
      if after.length < cs.length then (scan after).map (token :: ·) else none
termination_by cs.length

end Token

end Document

end EntityFilter
