import EntityFilter.Proofs.RepeatedGroups

/-!
# Patterns as they are written

The tree that the reader makes of a pattern has lost much of the spelling: which kind of parenthesis
opens a group, how a character is escaped, whether a closing bracket comes first in a class.  A
`Written.Expression` keeps all of it.  It has alternatives, which are branches of pieces, and a
piece is a group or a single item with at most one repetition behind it.  The types leave no other
choice, so an expression has no repetition of a repetition, no flags that stand alone and no verbose
flag.

`Expression.text` writes an expression down, and `Expression.IsDangerous` says which expressions
invite backtracking: a group is repeated too often for what is inside it, at any depth.
-/

namespace EntityFilter

namespace Pattern

namespace Written

/-! ## Escapes -/

/-- How many digits the code point of a character has when no braces stand around them. -/
inductive CodeWidth where
  | two
  | four
  | eight
  deriving DecidableEq

/-- The letter behind the backslash. -/
def CodeWidth.letter : CodeWidth → Char
  | two => 'x'
  | four => 'u'
  | eight => 'U'

/-- The number of digits. -/
def CodeWidth.size : CodeWidth → Nat
  | two => 2
  | four => 4
  | eight => 8

instance (digits : List Char) : Decidable (Reader.IsHex digits) :=
  decidable_of_iff (digits.all fun c => (Text.hexValue? c).isSome) List.all_eq_true

/-- A backslash and what belongs to it. -/
inductive Escape where
  /-- One character, which stands for itself, for a set of characters or for a place. -/
  | char (c : Char) (single : Reader.opensBraces c = false := by decide)
  /-- The digits of a code point. -/
  | digits (width : CodeWidth) (digits : List Char) (hex : Reader.IsHex digits := by decide)
      (size : digits.length = width.size := by decide)
  /-- The digits of a code point between braces, any number of them. -/
  | braces (width : CodeWidth) (digits : List Char) (hex : Reader.IsHex digits := by decide)
  /-- A word boundary that has a name. -/
  | boundary (name : String) (known : name ∈ Reader.boundaries.map Prod.fst := by decide)

/-- What stands behind the backslash. -/
def Escape.behind : Escape → List Char
  | char c _ => [c]
  | digits width ds _ _ => width.letter :: ds
  | braces width ds _ => width.letter :: '{' :: (ds ++ ['}'])
  | boundary name _ => 'b' :: '{' :: (name.toList ++ ['}'])

/-- The characters of an escape. -/
def Escape.chars (e : Escape) : List Char := '\\' :: e.behind

/-! ## Classes -/

/-- A character of a class.  Brackets and backslashes are escaped. -/
inductive ClassChar where
  /-- The character itself. -/
  | char (c : Char) (inner : c ≠ '\\' ∧ c ≠ '[' ∧ c ≠ ']' := by decide)
  /-- An escape. -/
  | escape (e : Escape)

/-- The characters of a character of a class. -/
def ClassChar.chars : ClassChar → List Char
  | char c _ => [c]
  | escape e => e.chars

/-- An item of a class. -/
inductive ClassItem where
  /-- One character, or the characters that an escape stands for. -/
  | single (c : ClassChar)
  /-- A range from one character to another. -/
  | range (first last : ClassChar)
  /-- A range to the opening bracket, which needs no escape at the end of a range. -/
  | rangeToBracket (first : ClassChar)
  /-- The characters of a set that has a name, or all others. -/
  | named (negated : Bool) (name : String)
      (known : name ∈ CharSet.named.map Prod.fst := by decide)

namespace ClassItem

/-- The sign of a complement, if there is one. -/
def sign (negated : Bool) : List Char := if negated then ['^'] else []

/-- The characters of an item. -/
def chars : ClassItem → List Char
  | single c => c.chars
  | range first last => first.chars ++ '-' :: last.chars
  | rangeToBracket first => first.chars ++ ['-', '[']
  | named negated name _ => '[' :: ':' :: (sign negated ++ (name.toList ++ [':', ']']))

/-- Whether an item is a range to an opening bracket that has no backslash. -/
def endsInBracket : ClassItem → Bool
  | rangeToBracket _ => true
  | _ => false

end ClassItem

/-- A class.  A closing bracket that comes first stands for itself. -/
structure Class where
  /-- Whether the characters are the ones that are not in the class. -/
  negated : Bool := false
  /-- Whether a closing bracket comes first. -/
  bracketFirst : Bool := false
  /-- The items. -/
  items : List ClassItem
  /-- There is something in the class. -/
  nonempty : bracketFirst ∨ items ≠ [] := by decide
  /-- What comes first is not taken for the sign of a complement. -/
  unsigned : negated ∨ bracketFirst ∨ (items.flatMap ClassItem.chars).head? ≠ some '^' := by
    decide

/-- The characters of a class. -/
def Class.chars (k : Class) : List Char :=
  '[' :: (ClassItem.sign k.negated ++ ((if k.bracketFirst then [']'] else []) ++
    (k.items.flatMap ClassItem.chars ++ [']'])))

/-! ## Single items -/

/-- Whether a character stands for itself outside of classes. -/
def isLiteral (c : Char) : Bool := Reader.isOrdinary c && c ≠ '.' && c ≠ '^' && c ≠ '$'

/-- A piece of a pattern that is no group. -/
inductive Item where
  /-- A character that stands for itself. -/
  | literal (c : Char) (plain : isLiteral c := by decide)
  /-- The dot. -/
  | dot
  /-- The anchor at the beginning. -/
  | caret
  /-- The anchor at the end. -/
  | dollar
  /-- An escape. -/
  | escape (e : Escape)
  /-- A class. -/
  | oneOf (k : Class)

namespace Item

/-- The characters of an item. -/
def chars : Item → List Char
  | literal c _ => [c]
  | dot => ['.']
  | caret => ['^']
  | dollar => ['$']
  | escape e => e.chars
  | oneOf k => k.chars

/-- Whether an item is a class with a range that ends in an opening bracket without a backslash. -/
def endsInBracket : Item → Bool
  | oneOf k => k.items.any ClassItem.endsInBracket
  | _ => false

end Item

/-! ## Repetitions -/

/-- The number that decimal digits write. -/
def valueOf (digits : List Char) : Nat := digits.foldl (fun n c => n * 10 + (c.toNat - '0'.toNat)) 0

/-- A number in a counted repetition.  Blanks may stand around it. -/
structure Numeral where
  /-- Blanks before the digits. -/
  before : List Char := []
  /-- The digits. -/
  digits : List Char
  /-- Blanks behind the digits. -/
  after : List Char := []
  blank_before : before.all Text.isBlank := by decide
  isDigit : digits.all Char.isDigit := by decide
  blank_after : after.all Text.isBlank := by decide
  ne_nil : digits ≠ [] := by decide
  lt : valueOf digits < Nat.pow 2 32 := by decide

namespace Numeral

/-- The number. -/
def value (n : Numeral) : Nat := valueOf n.digits

/-- The characters of a number. -/
def chars (n : Numeral) : List Char := n.before ++ (n.digits ++ n.after)

end Numeral

/-- How often something is repeated. -/
inductive Bounds where
  /-- Once or not at all, `?`. -/
  | option
  /-- Any number of times, `*`. -/
  | star
  /-- At least once, `+`. -/
  | plus
  /-- So many times, between braces. -/
  | exactly (n : Numeral)
  /-- At least so many times. -/
  | atLeast (n : Numeral)
  /-- At least and at most so many times. -/
  | between (n m : Numeral)

namespace Bounds

/-- The characters of bounds. -/
def chars : Bounds → List Char
  | option => ['?']
  | star => ['*']
  | plus => ['+']
  | exactly n => '{' :: (n.chars ++ ['}'])
  | atLeast n => '{' :: (n.chars ++ [',', '}'])
  | between n m => '{' :: (n.chars ++ ',' :: (m.chars ++ ['}']))

/-- Whether there is no upper bound. -/
def isUnbounded : Bounds → Bool
  | star | plus | atLeast _ => true
  | option | exactly _ | between _ _ => false

/-- Whether there are a lower bound and an upper one above one. -/
def isCounted : Bounds → Bool
  | between _ m => 1 < m.value
  | _ => false

end Bounds

/-- A repetition.  A reluctant one has a question mark behind it. -/
structure Repetition where
  /-- How often. -/
  bounds : Bounds
  /-- Whether as seldom as possible. -/
  reluctant : Bool := false

/-- The characters of a repetition. -/
def Repetition.chars (r : Repetition) : List Char :=
  r.bounds.chars ++ if r.reluctant then ['?'] else []

/-- The characters of a repetition, if there is one. -/
def repetitionChars (r : Option Repetition) : List Char := (r.map Repetition.chars).getD []

/-! ## Groups -/

/-- The flags that a group may turn on.  The verbose flag is none of them. -/
def flagsOn : List Char := ['i', 'm', 's', 'R', 'U', 'u']

/-- How a group begins. -/
inductive Opening where
  /-- A group that captures. -/
  | capture
  /-- A group that captures under a name, with or without the letter `P`. -/
  | named (letter : Bool) (first : Char) (others : List Char)
      (isName : Reader.isNameChar true first ∧ others.all (Reader.isNameChar false) := by decide)
  /-- A group that does not capture, and the flags that it turns on and off. -/
  | flags (on off : List Char)
      (known : on.all (· ∈ flagsOn) ∧ off.all (· ∈ 'x' :: flagsOn) := by decide)

/-- What stands behind the opening parenthesis. -/
def Opening.behind : Opening → List Char
  | capture => []
  | named letter first others _ =>
    '?' :: ((if letter then ['P', '<'] else ['<']) ++ (first :: (others ++ ['>'])))
  | flags on off _ => '?' :: (on ++ ((if off.isEmpty then [] else '-' :: off) ++ [':']))

/-! ## Expressions -/

mutual

/-- Alternatives, of which there is at least one. -/
inductive Expression where
  /-- One branch. -/
  | branch (b : Branch)
  /-- A branch or others. -/
  | alternative (b : Branch) (others : Expression)

/-- Pieces one after the other. -/
inductive Branch where
  /-- No piece. -/
  | empty
  /-- A piece and those behind it. -/
  | cons (p : Piece) (rest : Branch)

/-- A piece, repeated or not. -/
inductive Piece where
  /-- An item. -/
  | item (i : Item) (repetition : Option Repetition)
  /-- A group. -/
  | group (opening : Opening) (body : Expression) (repetition : Option Repetition)

end

mutual

/-- The characters of an expression. -/
def Expression.chars : Expression → List Char
  | .branch b => b.chars
  | .alternative b others => b.chars ++ '|' :: others.chars

/-- The characters of a branch. -/
def Branch.chars : Branch → List Char
  | .empty => []
  | .cons p rest => p.chars ++ rest.chars

/-- The characters of a piece. -/
def Piece.chars : Piece → List Char
  | .item i r => i.chars ++ repetitionChars r
  | .group opening body r =>
    '(' :: (opening.behind ++ (body.chars ++ ')' :: repetitionChars r))

end

/-- The text of an expression. -/
def Expression.text (e : Expression) : String := String.ofList e.chars

/-- Pieces one after the other, without alternatives. -/
def Expression.ofPieces (ps : List Piece) : Expression := .branch (ps.foldr .cons .empty)

/-- A character that stands for itself, repeated or not. -/
def Piece.char (c : Char) (r : Option Repetition := none) (plain : isLiteral c := by decide) :
    Piece :=
  .item (.literal c plain) r

/-! ## What is inside -/

mutual

/-- The pieces of an expression, at any depth. -/
def Expression.pieces : Expression → List Piece
  | .branch b => b.pieces
  | .alternative b others => b.pieces ++ others.pieces

/-- The pieces of a branch, at any depth. -/
def Branch.pieces : Branch → List Piece
  | .empty => []
  | .cons p rest => p.pieces ++ rest.pieces

/-- A piece and the pieces inside it, at any depth. -/
def Piece.pieces : Piece → List Piece
  | .item i r => [.item i r]
  | .group opening body r => .group opening body r :: body.pieces

end

namespace Piece

/-- The repetition behind a piece. -/
def repetition? : Piece → Option Repetition
  | item _ r => r
  | group _ _ r => r

/-- The body of a group. -/
def body? : Piece → Option Expression
  | item _ _ => none
  | group _ body _ => some body

/-- Whether a piece is repeated without bound. -/
def isUnbounded (p : Piece) : Bool := p.repetition?.any (·.bounds.isUnbounded)

/-- Whether a piece is a class with a range that ends in an opening bracket without a backslash. -/
def endsInBracket : Piece → Bool
  | item i _ => i.endsInBracket
  | group _ _ _ => false

end Piece

namespace Expression

/-- Whether there is more than one branch. -/
def isAlternation : Expression → Bool
  | branch _ => false
  | alternative _ _ => true

/-- Something is repeated without bound, at any depth. -/
def HasUnbounded (e : Expression) : Prop := ∃ p ∈ e.pieces, p.isUnbounded

/-- There are alternatives, at any depth. -/
def HasAlternation (e : Expression) : Prop :=
  e.isAlternation ∨ ∃ p ∈ e.pieces, ∃ body ∈ p.body?, body.isAlternation

instance (e : Expression) : Decidable e.HasUnbounded :=
  inferInstanceAs (Decidable (∃ p ∈ e.pieces, p.isUnbounded))

instance (e : Expression) : Decidable e.HasAlternation :=
  inferInstanceAs (Decidable (e.isAlternation ∨
    ∃ p ∈ e.pieces, ∃ body ∈ p.body?, body.isAlternation))

end Expression

/-- A group is repeated more often than its body allows: without bound, and something inside is
repeated without bound or has alternatives, or up to a number above one, and something inside is
repeated without bound. -/
def Piece.IsDangerous (p : Piece) : Prop :=
  ∃ body ∈ p.body?, ∃ r ∈ p.repetition?,
    r.bounds.isUnbounded ∧ (body.HasUnbounded ∨ body.HasAlternation) ∨
      r.bounds.isCounted ∧ body.HasUnbounded

instance : DecidablePred Piece.IsDangerous := fun p =>
  inferInstanceAs (Decidable (∃ body ∈ p.body?, ∃ r ∈ p.repetition?,
    r.bounds.isUnbounded ∧ (body.HasUnbounded ∨ body.HasAlternation) ∨
      r.bounds.isCounted ∧ body.HasUnbounded))

/-- **Some group is repeated more often than its body allows.** -/
def Expression.IsDangerous (e : Expression) : Prop := ∃ p ∈ e.pieces, p.IsDangerous

/-- No range of a class ends in an opening bracket without a backslash. -/
def Expression.EscapesBrackets (e : Expression) : Prop := ∀ p ∈ e.pieces, ¬p.endsInBracket

instance (e : Expression) : Decidable e.IsDangerous :=
  inferInstanceAs (Decidable (∃ p ∈ e.pieces, p.IsDangerous))

instance (e : Expression) : Decidable e.EscapesBrackets :=
  inferInstanceAs (Decidable (∀ p ∈ e.pieces, ¬p.endsInBracket))

end Written

end Pattern

end EntityFilter
