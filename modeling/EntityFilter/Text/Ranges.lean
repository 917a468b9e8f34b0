/-!
# Ranges of characters

A property of characters beyond ASCII is kept as a table of inclusive ranges of code points, in
increasing order.  `contains` looks a code point up by halving the table.
-/

namespace EntityFilter.Text.Ranges

/-- Look a code point up between two places of an ordered table.  Each step halves what is left,
so as many steps as the size of the table has binary digits are enough. -/
def search (table : Array (Nat × Nat)) (n : Nat) : Nat → Nat → Nat → Bool
  | 0, _, _ => false
  | steps + 1, low, high =>
    if low < high then
      let middle := (low + high) / 2
      match table[middle]? with
      | none => false
      | some (first, last) =>
        if n < first then search table n steps low middle
        else if last < n then search table n steps (middle + 1) high
        else true
    else false

/-- Whether a code point lies in one of the ranges. -/
def contains (table : Array (Nat × Nat)) (n : Nat) : Bool :=
  search table n (table.size.log2 + 1) 0 table.size

end EntityFilter.Text.Ranges
