import EntityFilter.Text.Blank
import EntityFilter.Text.Letter
import EntityFilter.Text.Lowercase
import EntityFilter.Text.Segment

/-!
# Full-text search

A document is cut into words at every character that is neither letter nor number, and the mode
says how the words of the query are looked for.  Case does not count.  Words are compared as they
stand: nothing is stemmed and nothing ranked.
-/

namespace EntityFilter

/-- How the text of a query is understood. -/
inductive SearchMode where
  /-- All words occur. -/
  | plain
  /-- The words occur one after the other. -/
  | phrase
  /-- Alternatives separated by `or`, with words to be left out after a minus sign. -/
  | websearch
  /-- All words occur; the query is passed on as it is. -/
  | raw
  deriving DecidableEq, Repr, Inhabited

namespace SearchMode

/-- Every mode. -/
def all : List SearchMode := [plain, phrase, websearch, raw]

/-- The name of a mode. -/
def name : SearchMode → String
  | plain => "plain"
  | phrase => "phrase"
  | websearch => "websearch"
  | raw => "raw"

/-- The mode of a name. -/
def ofName? (s : String) : Option SearchMode := all.find? (·.name = s)

/-- The function that reads the query in a database. -/
def queryFunction : SearchMode → String
  | plain => "plainto_tsquery"
  | phrase => "phraseto_tsquery"
  | websearch => "websearch_to_tsquery"
  | raw => "to_tsquery"

/-- The pieces of a text between characters that are neither letter nor number, empty ones
included. -/
def pieces (cs : List Char) : List (List Char) :=
  Text.splitOnElement (fun c => !Text.isAlphanumeric c) cs

/-- Whether every word of the query is among the pieces. -/
def matchesAll (document : List (List Char)) (query : List Char) : Bool :=
  ((pieces query).filter (!·.isEmpty)).all document.contains

/-- Whether the query, cut at blanks, stands in the pieces one after the other. -/
def matchesPhrase (document : List (List Char)) (query : List Char) : Bool :=
  let terms := Text.words query
  !terms.isEmpty && Text.hasSegment terms document

/-- Whether a term of one alternative is satisfied: a word behind a minus sign must be missing, any
other word, without quotes around it, must be there. -/
def matchesTerm (document : List (List Char)) : List Char → Bool
  | '-' :: excluded => !document.contains excluded
  | term => document.contains (Text.stripWhile (· == '"') term)

/-- Whether some alternative of the query is satisfied. -/
def matchesWeb (document : List (List Char)) (query : List Char) : Bool :=
  (Text.splitFrom " or ".toList 0 query).any fun alternative =>
    (Text.words alternative).all (matchesTerm document)

/-- Whether a query finds a document. -/
def finds (mode : SearchMode) (document query : String) : Bool :=
  let document := pieces (Text.lowercase document).toList
  let query := (Text.lowercase query).toList
  match mode with
  | plain => matchesAll document query
  | phrase => matchesPhrase document query
  | websearch => matchesWeb document query
  | raw => matchesAll document query

end SearchMode

end EntityFilter
