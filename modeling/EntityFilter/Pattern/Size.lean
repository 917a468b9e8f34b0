import EntityFilter.Pattern.Reader

/-!
# Patterns that can be compiled

A pattern is compiled to a machine whose size is bounded: every copy that a counted repetition
asks for is there.  `Pattern.size` is the memory that the machine takes, found by counting and not
by building it, and `Pattern.nesting` the depth of the tree, which is bounded too.
-/

namespace EntityFilter

namespace Pattern

/-- The bytes of one state of the machine. -/
def stateSize : Nat := 32

/-- The bytes of a state that leads to so many others. -/
def splitSize (targets : Nat) : Nat := stateSize + 4 * targets

/-- The deepest nesting of a pattern that can be compiled. -/
def maxNesting : Nat := 50

/-- The greatest size of a pattern that can be compiled. -/
def maxSize : Nat := 10 * Nat.pow 2 20

mutual

/-- The nesting of repetitions, captures, sequences and alternatives. -/
def nesting : Pattern → Nat
  | repetition _ _ p => nesting p + 1
  | group capture p => nesting p + capture.isSome.toNat
  | concat ps | alternation ps => nestingAll ps + 1
  | _ => 0

/-- The greatest nesting among patterns. -/
def nestingAll : List Pattern → Nat
  | [] => 0
  | p :: ps => max (nesting p) (nestingAll ps)

end

mutual

/-- Whether a pattern can match the empty text. -/
def acceptsEmpty : Pattern → Bool
  | empty | look _ => true
  | char _ | oneOf _ => false
  | repetition least _ p => least == 0 || acceptsEmpty p
  | group _ p => acceptsEmpty p
  | concat ps => acceptEmpty ps
  | alternation ps => acceptsEmptyOne ps

/-- Whether all patterns can match the empty text. -/
def acceptEmpty : List Pattern → Bool
  | [] => true
  | p :: ps => acceptsEmpty p && acceptEmpty ps

/-- Whether some pattern can match the empty text. -/
def acceptsEmptyOne : List Pattern → Bool
  | [] => false
  | p :: ps => acceptsEmpty p || acceptsEmptyOne ps

end

/-- The size of exactly so many copies. -/
def copiesSize (n body : Nat) : Nat := if n = 0 then stateSize else n * body

/-- The size of a repetition, given the size of its body. -/
def repetitionSize (least : Nat) (most : Option Nat) (bodyEmpty : Bool) (body : Nat) : Nat :=
  match most with
  | none =>
    if least = 0 then
      if bodyEmpty then body + 2 * splitSize 2 + stateSize else body + splitSize 2
    else least * body + splitSize 2
  | some most =>
    if least = 0 ∧ most = 1 then splitSize 2 + body + stateSize
    else if least = most then copiesSize least body
    else copiesSize least body + stateSize + (most - least) * (splitSize 2 + body)

mutual

/-- The size of the machine. -/
def size : Pattern → Nat
  | empty | char _ | look _ => stateSize
  | oneOf set => stateSize + 8 * set.ranges.length
  | repetition least most p => repetitionSize least most (acceptsEmpty p) (size p)
  | group capture p => size p + 2 * stateSize * capture.isSome.toNat
  | concat ps => sizeAll ps
  | alternation ps => splitSize ps.length + stateSize + sizeAll ps

/-- The size of machines one after the other. -/
def sizeAll : List Pattern → Nat
  | [] => 0
  | p :: ps => size p + sizeAll ps

end

mutual

/-- What the groups of a pattern capture under. -/
def captures : Pattern → List Capture
  | group capture p => capture.toList ++ captures p
  | repetition _ _ p => captures p
  | concat ps | alternation ps => capturesAll ps
  | _ => []

/-- What the groups of patterns capture under. -/
def capturesAll : List Pattern → List Capture
  | [] => []
  | p :: ps => captures p ++ capturesAll ps

end

/-- The size of the table of captures: an entry for each number up to the greatest one, and the
names.  The match as a whole has the number zero. -/
def tableSize (cs : List Capture) : Nat :=
  let entries := cs.foldl (fun n c => Nat.max n (c.number + 1)) 1
  let names := cs.filterMap Capture.name
  16 * entries + names.foldl (fun n name => n + name.utf8ByteSize + 4) 0

/-- The size of everything: the machine, a state at its end and one at either end of the match, and
the table of captures. -/
def totalSize (p : Pattern) : Nat := p.size + 3 * stateSize + tableSize p.captures

/-- The pattern that a text writes, unless it is nested too deep or too large. -/
def compile? (text : String) : Option Pattern :=
  match read? text with
  | some p => if p.nesting ≤ maxNesting ∧ p.totalSize ≤ maxSize then some p else none
  | none => none

end Pattern

end EntityFilter
