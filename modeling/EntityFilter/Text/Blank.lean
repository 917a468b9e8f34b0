/-!
# White space

`isBlank` is the property White_Space of Unicode.  Trimming takes blanks off both ends of a text,
and `words` are the runs between blanks.
-/

namespace EntityFilter.Text

/-- Whether a character is white space. -/
def isBlank (c : Char) : Bool :=
  let n := c.toNat
  (9 ≤ n && n ≤ 13) || n == 0x20 || n == 0x85 || n == 0xA0 || n == 0x1680 ||
    (0x2000 ≤ n && n ≤ 0x200A) || n == 0x2028 || n == 0x2029 || n == 0x202F || n == 0x205F ||
    n == 0x3000

/-- Core's white space is white space. -/
theorem isBlank_of_isWhitespace {c : Char} (h : c.isWhitespace = true) : isBlank c = true := by
  simp only [Char.isWhitespace, Bool.or_eq_true, decide_eq_true_eq] at h
  rcases h with ((rfl | rfl) | rfl) | rfl <;> decide

/-- The code points of digits. -/
theorem toNat_of_isDigit {c : Char} (h : c.isDigit = true) : 48 ≤ c.toNat ∧ c.toNat ≤ 57 := by
  simp only [Char.isDigit, Bool.and_eq_true, decide_eq_true_eq, UInt32.le_iff_toNat_le] at h
  exact h

/-- Digits are no white space. -/
theorem isBlank_of_isDigit {c : Char} (h : c.isDigit = true) : isBlank c = false := by
  have hcode := toNat_of_isDigit h
  simp only [isBlank, Bool.or_eq_false_iff, Bool.and_eq_false_iff, decide_eq_false_iff_not,
    beq_eq_false_iff_ne]
  omega

/-- Leave out the elements at the end that satisfy a predicate. -/
def dropEndWhile (p : α → Bool) (xs : List α) : List α := (xs.reverse.dropWhile p).reverse

/-- Leave out the elements at both ends that satisfy a predicate. -/
def stripWhile (p : α → Bool) (xs : List α) : List α := dropEndWhile p (xs.dropWhile p)

/-- The text without blanks at its ends. -/
def trim (s : String) : String := String.ofList (stripWhile isBlank s.toList)

/-- Whether a text has nothing but blanks. -/
def isBlankText (s : String) : Bool := s.toList.all isBlank

/-- The pieces of a list between the elements that satisfy a predicate, empty pieces included. -/
def splitOnElement (p : α → Bool) : List α → List (List α)
  | [] => [[]]
  | x :: xs =>
    match splitOnElement p xs with
    | [] => [[]]
    | piece :: pieces => if p x then [] :: piece :: pieces else (x :: piece) :: pieces

/-- The runs of characters between blanks. -/
def words (cs : List Char) : List (List Char) :=
  (splitOnElement isBlank cs).filter fun piece => !piece.isEmpty

end EntityFilter.Text
