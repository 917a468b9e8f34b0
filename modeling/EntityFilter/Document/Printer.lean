import EntityFilter.Document
import EntityFilter.Number.Shortest
import EntityFilter.Text.Hexadecimal

/-!
# Printed documents

A document is printed without spaces, members in order.  In a text only the quote, the backslash
and the characters below U+0020 are escaped.  Doubles keep at least one decimal, and those whose
first digit stands for less than `10 ^ -5` or more than `10 ^ 15` are written with a signed
exponent.
-/

namespace EntityFilter

namespace Document

/-- Doubles in printed documents. -/
def numberLayout : Layout where
  plainFrom := -5
  plainTo := 15
  signsExponent := true
  tie := .toEven

/-- The characters that stand for one character between quotes. -/
def escape (c : Char) : List Char :=
  if c = '"' then ['\\', '"']
  else if c = '\\' then ['\\', '\\']
  else if c = '\n' then ['\\', 'n']
  else if c = '\r' then ['\\', 'r']
  else if c = '\t' then ['\\', 't']
  else if c = '\x08' then ['\\', 'b']
  else if c = '\x0c' then ['\\', 'f']
  else if c.toNat < 0x20 then ['\\', 'u', '0', '0', Text.hexDigit (c.toNat / 16), Text.hexDigit (c.toNat % 16)]
  else [c]

/-- A text between quotes. -/
def quote (s : String) : String := String.ofList ('"' :: (s.toList.flatMap escape ++ ['"']))

mutual

/-- The compact text of a document. -/
def print : Document → String
  | null => "null"
  | bool b => if b then "true" else "false"
  | int i => toString i
  | float x => numberLayout.render x
  | text s => quote s
  | array items => "[" ++ String.intercalate "," (printItems items) ++ "]"
  | object members => "\x7b" ++ String.intercalate "," (printMembers members) ++ "\x7d"

/-- The texts of the items. -/
def printItems : List Document → List String
  | [] => []
  | d :: ds => print d :: printItems ds

/-- The texts of the members. -/
def printMembers : List (String × Document) → List String
  | [] => []
  | (key, d) :: ms => (quote key ++ ":" ++ print d) :: printMembers ms

end

end Document

end EntityFilter
