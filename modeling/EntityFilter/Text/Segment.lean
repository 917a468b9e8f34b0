/-!
# Segments of a list

Where one list of characters stands inside another: at the start, at the end, anywhere.  Replacing
and splitting take the occurrences of a segment from the left and never let two of them overlap.
-/

namespace EntityFilter.Text

variable {α : Type u} [DecidableEq α]

/-- Whether the segment occurs somewhere in a list. -/
def hasSegment (segment : List α) : List α → Bool
  | [] => segment.isEmpty
  | x :: xs => segment.isPrefixOf (x :: xs) || hasSegment segment xs

/-- Replace each occurrence of a segment; `skip` elements still belong to the last one found. -/
def replaceFrom (segment replacement : List α) : Nat → List α → List α
  | _, [] => []
  | skip + 1, _ :: xs => replaceFrom segment replacement skip xs
  | 0, x :: xs =>
    if segment.isPrefixOf (x :: xs) then
      replacement ++ replaceFrom segment replacement (segment.length - 1) xs
    else x :: replaceFrom segment replacement 0 xs

/-- The pieces between the occurrences of a segment; `skip` elements still belong to the last one
found. -/
def splitFrom (segment : List α) : Nat → List α → List (List α)
  | _, [] => [[]]
  | skip + 1, _ :: xs => splitFrom segment skip xs
  | 0, x :: xs =>
    if segment.isPrefixOf (x :: xs) then [] :: splitFrom segment (segment.length - 1) xs
    else
      match splitFrom segment 0 xs with
      | [] => [[x]]
      | piece :: pieces => (x :: piece) :: pieces

/-- Whether one text starts with another. -/
def startsWith (s start : String) : Bool := start.toList.isPrefixOf s.toList

/-- Whether one text ends with another. -/
def endsWith (s ending : String) : Bool := ending.toList.isSuffixOf s.toList

/-- Whether one text contains another. -/
def contains (s inner : String) : Bool := hasSegment inner.toList s.toList

/-- Replace each occurrence of a segment in a text.  The segment is not empty. -/
def replace (s segment replacement : String) : String :=
  String.ofList (replaceFrom segment.toList replacement.toList 0 s.toList)

/-- What is left of a text after an ending, if it has that ending and something before it. -/
def withoutEnding? (s ending : String) : Option String :=
  if endsWith s ending ∧ ending.length < s.length then
    some (String.ofList (s.toList.take (s.length - ending.length)))
  else none

/-- Join texts with a separator. -/
def join (separator : String) (texts : List String) : String := String.intercalate separator texts

end EntityFilter.Text
