import EntityFilter.Document.Printer
import EntityFilter.Literal
import EntityFilter.Text.Segment

/-!
# Printed literals

Literals are printed the way a query would write them.  A text stands between single quotes, and a
quote inside is written twice; a document stands between single quotes as it is printed.
-/

namespace EntityFilter

namespace Literal

/-- Doubles in printed conditions. -/
def numberLayout : Layout where
  plainFrom := -4
  plainTo := 15
  signsExponent := false
  tie := .up

/-- A text between single quotes. -/
def quote (s : String) : String := "'" ++ Text.replace s "'" "''" ++ "'"

mutual

/-- The text of a literal. -/
def render : Literal → String
  | null => "NULL"
  | bool b => if b then "true" else "false"
  | int i => toString i
  | float x => numberLayout.render x
  | text s => quote s
  | date d => "DATE '" ++ d.render ++ "'"
  | instant t => "TIMESTAMP '" ++ t.render ++ "'"
  | list items => "(" ++ Text.join ", " (renderAll items) ++ ")"
  | document d => "'" ++ d.print ++ "'"

/-- The texts of literals. -/
def renderAll : List Literal → List String
  | [] => []
  | v :: vs => render v :: renderAll vs

end

end Literal

end EntityFilter
