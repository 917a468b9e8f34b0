import EntityFilter.Text.Hexadecimal

/-!
# Texts in configuration documents

A text stands between double quotes, with escapes, or between single quotes, as it is.  Three
quotes on each side make a text of several lines.  Control characters other than the tab are
refused everywhere, and a carriage return only counts in front of a line feed.
-/

namespace EntityFilter.Toml

/-- Whether a character may stand in a text or a comment. -/
def isPrintable (c : Char) : Bool := c = '\t' || (' ' ≤ c && c ≤ '~') || 0x80 ≤ c.toNat

/-- Whether a character is a blank within a line. -/
def isSpace (c : Char) : Bool := c = ' ' || c = '\t'

/-- What is left behind the end of a line. -/
def newline? : List Char → Option (List Char)
  | '\n' :: rest => some rest
  | '\r' :: '\n' :: rest => some rest
  | _ => none

/-- What a letter or a mark stands for behind a backslash. -/
def escaped? (c : Char) : Option Char :=
  match c with
  | 'b' => some '\x08'
  | 't' => some '\t'
  | 'n' => some '\n'
  | 'f' => some '\x0c'
  | 'r' => some '\r'
  | '"' => some '"'
  | '\\' => some '\\'
  | _ => none

/-- Put a character in front of a text that has been read. -/
def prepend (c : Char) (read : Option (List Char × List Char)) : Option (List Char × List Char) :=
  read.map fun (cs, rest) => (c :: cs, rest)

/-- A text behind its opening double quote, and what stands behind it. -/
def quoted? : List Char → Option (List Char × List Char)
  | [] => none
  | '"' :: rest => some ([], rest)
  | '\\' :: 'u' :: a :: b :: c :: d :: rest =>
    (Text.codePoint? [a, b, c, d]).bind fun x => prepend x (quoted? rest)
  | '\\' :: 'U' :: a :: b :: c :: d :: e :: f :: g :: h :: rest =>
    (Text.codePoint? [a, b, c, d, e, f, g, h]).bind fun x => prepend x (quoted? rest)
  | '\\' :: c :: rest => (escaped? c).bind fun x => prepend x (quoted? rest)
  | c :: rest => if isPrintable c && c ≠ '\\' then prepend c (quoted? rest) else none

/-- A text behind its opening single quote, and what stands behind it. -/
def literal? : List Char → Option (List Char × List Char)
  | [] => none
  | '\'' :: rest => some ([], rest)
  | c :: rest => if isPrintable c then prepend c (literal? rest) else none

/-- The quotes that stand in front of three closing ones belong to the text, up to two of them. -/
def closing (quote : Char) : List Char → List Char × List Char
  | a :: b :: rest =>
    if a = quote then if b = quote then ([quote, quote], rest) else ([quote], b :: rest)
    else ([], a :: b :: rest)
  | [a] => if a = quote then ([quote], []) else ([], [a])
  | [] => ([], [])

/-- Whether a line ends behind blanks. -/
def endsLine (cs : List Char) : Bool := (newline? (cs.dropWhile isSpace)).isSome

/-- A text of several lines behind its opening double quotes.  A backslash at the end of a line
takes away the blanks and the ends of lines that follow it, which is said by `joining`. -/
def quotedLines? (joining : Bool) : List Char → Option (List Char × List Char)
  | [] => none
  | '"' :: '"' :: '"' :: rest => some (closing '"' rest)
  | '\r' :: '\n' :: rest =>
    if joining then quotedLines? true rest else prepend '\n' (quotedLines? false rest)
  | '\\' :: 'u' :: a :: b :: c :: d :: rest =>
    (Text.codePoint? [a, b, c, d]).bind fun x => prepend x (quotedLines? false rest)
  | '\\' :: 'U' :: a :: b :: c :: d :: e :: f :: g :: h :: rest =>
    (Text.codePoint? [a, b, c, d, e, f, g, h]).bind fun x => prepend x (quotedLines? false rest)
  | '\\' :: c :: rest =>
    match escaped? c with
    | some x => prepend x (quotedLines? false rest)
    | none => if endsLine (c :: rest) then quotedLines? true (c :: rest) else none
  | c :: rest =>
    if joining && (isSpace c || c = '\n') then quotedLines? true rest
    else if (isPrintable c && c ≠ '\\') || c = '\n' then prepend c (quotedLines? false rest)
    else none

/-- A text of several lines behind its opening single quotes. -/
def literalLines? : List Char → Option (List Char × List Char)
  | [] => none
  | '\'' :: '\'' :: '\'' :: rest => some (closing '\'' rest)
  | '\r' :: '\n' :: rest => prepend '\n' (literalLines? rest)
  | c :: rest => if isPrintable c || c = '\n' then prepend c (literalLines? rest) else none

/-- The end of a line directly behind the opening quotes is not part of a text. -/
def skipNewline (cs : List Char) : List Char := (newline? cs).getD cs

/-- A text in any of its four forms. -/
def text? : List Char → Option (List Char × List Char)
  | '"' :: '"' :: '"' :: rest => quotedLines? false (skipNewline rest)
  | '\'' :: '\'' :: '\'' :: rest => literalLines? (skipNewline rest)
  | '"' :: rest => quoted? rest
  | '\'' :: rest => literal? rest
  | _ => none

end EntityFilter.Toml
