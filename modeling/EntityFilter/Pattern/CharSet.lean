/-!
# Sets of characters

A set of characters is a list of ranges of code points that stand in order and apart: between two
of them there is a code point that is in neither.  Adding a range unites it with all ranges that it
overlaps or touches, so that a set has one form only, however it is put together.

Folding the case of a set goes by these ranges.  A range with small letters is joined by their
capitals, a range without any by the small letters of its capitals.  A range that goes from
capitals on to small letters therefore gets no small letter for its capitals: `W` to `b` folds to
`W` to `b` and `A` to `B`, and `w` is still missing.

The main statements are `contains_insert`, which says what a set contains after a range is added to
it, and `contains_complement`.
-/

namespace EntityFilter

/-- Code points from a first one to a last one. -/
structure CodeRange where
  /-- The first one. -/
  first : Nat
  /-- The last one. -/
  last : Nat
  /-- There is at least one. -/
  first_le_last : first ≤ last
  deriving DecidableEq, Repr

namespace CodeRange

/-- The characters from one to another. -/
def ofChars (a b : Char) (h : a ≤ b := by decide) : CodeRange :=
  ⟨a.toNat, b.toNat, UInt32.le_iff_toNat_le.1 h⟩

/-- One character. -/
def single (c : Char) : CodeRange := ⟨c.toNat, c.toNat, Nat.le_refl _⟩

/-- Whether a code point is in a range. -/
def contains (r : CodeRange) (n : Nat) : Bool := r.first ≤ n && n ≤ r.last

theorem contains_iff (r : CodeRange) (n : Nat) : r.contains n ↔ r.first ≤ n ∧ n ≤ r.last := by
  simp [contains]

theorem contains_eq_false_iff (r : CodeRange) (n : Nat) :
    r.contains n = false ↔ n < r.first ∨ r.last < n := by
  simp [contains]
  omega

/-- The first range ends before the second one begins, and does not touch it. -/
def Before (r s : CodeRange) : Prop := r.last + 1 < s.first

instance (r s : CodeRange) : Decidable (r.Before s) := inferInstanceAs (Decidable (_ < _))

/-- The shortest range around two. -/
def union (r s : CodeRange) : CodeRange :=
  ⟨min r.first s.first, max r.last s.last, by
    have := r.first_le_last
    omega⟩

/-- The small letters as capitals; without small letters the capitals as small letters. -/
def otherCase? (r : CodeRange) : Option CodeRange :=
  if h : max r.first 97 ≤ min r.last 122 then
    some ⟨max r.first 97 - 32, min r.last 122 - 32, by omega⟩
  else if h : max r.first 65 ≤ min r.last 90 then
    some ⟨max r.first 65 + 32, min r.last 90 + 32, by omega⟩
  else none

/-- Add a range to ranges that stand in order and apart. -/
def insert (r : CodeRange) : List CodeRange → List CodeRange
  | [] => [r]
  | s :: rest =>
    if r.Before s then r :: s :: rest
    else if s.Before r then s :: insert r rest
    else insert (r.union s) rest

theorem before_of_mem_insert {x r t : CodeRange} {rs : List CodeRange} (hr : x.Before r)
    (hs : ∀ s ∈ rs, x.Before s) (ht : t ∈ insert r rs) : x.Before t := by
  induction rs generalizing r with
  | nil => exact List.mem_singleton.1 ht ▸ hr
  | cons s rest ih =>
    have hrest : ∀ u ∈ rest, x.Before u := fun u hu => hs u (List.mem_cons_of_mem s hu)
    rw [insert] at ht
    split at ht
    · rcases List.mem_cons.1 ht with rfl | ht
      · exact hr
      · exact hs t ht
    · split at ht
      · rcases List.mem_cons.1 ht with rfl | ht
        · exact hs t List.mem_cons_self
        · exact ih hr hrest ht
      · refine ih ?_ hrest ht
        have hxs := hs s List.mem_cons_self
        simp only [Before, union] at hr hxs ⊢
        omega

theorem pairwise_insert (r : CodeRange) {rs : List CodeRange} (h : rs.Pairwise Before) :
    (insert r rs).Pairwise Before := by
  induction rs generalizing r with
  | nil => exact List.pairwise_singleton _ _
  | cons s rest ih =>
    obtain ⟨hs, hrest⟩ := List.pairwise_cons.1 h
    rw [insert]
    split
    · next hr =>
      refine List.pairwise_cons.2 ⟨fun t ht => ?_, h⟩
      rcases List.mem_cons.1 ht with rfl | ht
      · exact hr
      · have hst := hs t ht
        have := s.first_le_last
        simp only [Before] at hr hst ⊢
        omega
    · split
      · next hr =>
        exact List.pairwise_cons.2 ⟨fun t ht => before_of_mem_insert hr hs ht, ih r hrest⟩
      · exact ih _ hrest

theorem any_contains_insert (r : CodeRange) (rs : List CodeRange) (n : Nat) :
    (insert r rs).any (·.contains n) = (r.contains n || rs.any (·.contains n)) := by
  induction rs generalizing r with
  | nil => simp [insert]
  | cons s rest ih =>
    rw [insert]
    split
    · rfl
    · next hr =>
      split
      · simp only [List.any_cons, ih]
        exact Bool.or_left_comm ..
      · next hs =>
        rw [ih, List.any_cons, ← Bool.or_assoc]
        congr 1
        have := r.first_le_last
        have := s.first_le_last
        simp only [Before] at hr hs
        rw [Bool.eq_iff_iff, Bool.or_eq_true, contains_iff, contains_iff, contains_iff]
        simp only [union]
        omega

/-- The greatest code point. -/
def maxCode : Nat := 0x10ffff

/-- The ranges between ranges that stand in order and apart, from a code point on. -/
def gaps (start : Nat) : List CodeRange → List CodeRange
  | [] => if h : start ≤ maxCode then [⟨start, maxCode, h⟩] else []
  | r :: rest =>
    if h : start < r.first then ⟨start, r.first - 1, by omega⟩ :: gaps (r.last + 1) rest
    else gaps (r.last + 1) rest

theorem le_first_of_mem_gaps {start : Nat} {t : CodeRange} {rs : List CodeRange}
    (hs : ∀ s ∈ rs, start ≤ s.first) (h : rs.Pairwise Before) (ht : t ∈ gaps start rs) :
    start ≤ t.first := by
  induction rs generalizing start with
  | nil =>
    rw [gaps] at ht
    split at ht
    · exact List.mem_singleton.1 ht ▸ Nat.le_refl _
    · exact absurd ht List.not_mem_nil
  | cons r rest ih =>
    obtain ⟨hr, hrest⟩ := List.pairwise_cons.1 h
    have hstart := hs r List.mem_cons_self
    have hr' : ∀ s ∈ rest, r.last + 1 ≤ s.first := fun s hs => Nat.le_of_lt (hr s hs)
    have := r.first_le_last
    rw [gaps] at ht
    split at ht
    · rcases List.mem_cons.1 ht with rfl | ht
      · exact Nat.le_refl _
      · have := ih hr' hrest ht
        omega
    · have := ih hr' hrest ht
      omega

theorem pairwise_gaps {start : Nat} {rs : List CodeRange} (h : rs.Pairwise Before) :
    (gaps start rs).Pairwise Before := by
  induction rs generalizing start with
  | nil =>
    rw [gaps]
    split
    · exact List.pairwise_singleton _ _
    · exact List.Pairwise.nil
  | cons r rest ih =>
    obtain ⟨hr, hrest⟩ := List.pairwise_cons.1 h
    rw [gaps]
    split
    · refine List.pairwise_cons.2 ⟨fun t ht => ?_, ih hrest⟩
      have := le_first_of_mem_gaps (fun s hs => Nat.le_of_lt (hr s hs)) hrest ht
      have := r.first_le_last
      simp only [Before]
      omega
    · exact ih hrest

theorem any_contains_gaps {start n : Nat} {rs : List CodeRange} (h : rs.Pairwise Before)
    (hn : start ≤ n) (hmax : n ≤ maxCode) :
    (gaps start rs).any (·.contains n) = !rs.any (·.contains n) := by
  induction rs generalizing start with
  | nil =>
    have : start ≤ maxCode := Nat.le_trans hn hmax
    simp [gaps, contains, this, hn, hmax]
  | cons r rest ih =>
    obtain ⟨hr, hrest⟩ := List.pairwise_cons.1 h
    have hle := r.first_le_last
    by_cases hlast : r.last + 1 ≤ n
    · have hn' : r.contains n = false := (contains_eq_false_iff r n).2 (.inr hlast)
      rw [gaps, List.any_cons, hn', Bool.false_or, ← ih hrest hlast]
      split
      · next h =>
        have : contains ⟨start, r.first - 1, by omega⟩ n = false :=
          (contains_eq_false_iff _ n).2 (.inr (by show r.first - 1 < n; omega))
        rw [List.any_cons, this, Bool.false_or]
      · rfl
    · have hrest' : rest.any (·.contains n) = false := List.any_eq_false.2 fun s hs => by
        have := hr s hs
        simp only [Before] at this
        rw [contains_iff]
        omega
      have hgaps : (gaps (r.last + 1) rest).any (·.contains n) = false :=
        List.any_eq_false.2 fun t ht => by
          have := le_first_of_mem_gaps (fun s hs => Nat.le_of_lt (hr s hs)) hrest ht
          rw [contains_iff]
          omega
      rw [gaps, List.any_cons, hrest', Bool.or_false]
      split
      · rw [List.any_cons, hgaps, Bool.or_false, Bool.eq_iff_iff, Bool.not_eq_true', contains_iff,
          contains_eq_false_iff]
        show start ≤ n ∧ n ≤ r.first - 1 ↔ _
        omega
      · rw [hgaps, eq_comm, Bool.not_eq_false', contains_iff]
        omega

end CodeRange

/-- A set of characters. -/
structure CharSet where
  /-- The ranges. -/
  ranges : List CodeRange
  /-- They stand in order and apart. -/
  apart : ranges.Pairwise CodeRange.Before
  deriving DecidableEq

namespace CharSet

/-- Whether a character is in a set. -/
def contains (s : CharSet) (c : Char) : Bool := s.ranges.any (·.contains c.toNat)

/-- The set without characters. -/
def empty : CharSet := ⟨[], List.Pairwise.nil⟩

/-- Add the characters of a range. -/
def insert (s : CharSet) (r : CodeRange) : CharSet :=
  ⟨r.insert s.ranges, CodeRange.pairwise_insert r s.apart⟩

theorem contains_insert (s : CharSet) (r : CodeRange) (c : Char) :
    (s.insert r).contains c = (r.contains c.toNat || s.contains c) :=
  CodeRange.any_contains_insert r s.ranges c.toNat

/-- The characters of some ranges, which may stand in any order and overlap. -/
def ofRanges (rs : List CodeRange) : CharSet := rs.foldl insert empty

/-- The characters of a list. -/
def ofList (cs : List Char) : CharSet := ofRanges (cs.map .single)

/-- All other characters. -/
def complement (s : CharSet) : CharSet :=
  ⟨CodeRange.gaps 0 s.ranges, CodeRange.pairwise_gaps s.apart⟩

theorem contains_complement (s : CharSet) (c : Char) : s.complement.contains c = !s.contains c :=
  CodeRange.any_contains_gaps s.apart (Nat.zero_le _) (by
    have := c.valid
    simp only [UInt32.isValidChar, Nat.isValidChar] at this
    show c.val.toNat ≤ CodeRange.maxCode
    rw [CodeRange.maxCode]
    omega)

/-- Add the other case of the ASCII letters, range by range. -/
def foldCase (s : CharSet) : CharSet := (s.ranges.filterMap CodeRange.otherCase?).foldl insert s

/-- Decimal digits. -/
def digit : CharSet := .ofRanges [.ofChars '0' '9']

/-- White space. -/
def space : CharSet := .ofRanges [.ofChars '\t' '\r', .single ' ']

/-- The characters of words. -/
def word : CharSet := .ofRanges [.ofChars '0' '9', .ofChars 'A' 'Z', .single '_', .ofChars 'a' 'z']

/-- The sets that have a name between brackets and colons. -/
def named : List (String × CharSet) :=
  [("alnum", .ofRanges [.ofChars '0' '9', .ofChars 'A' 'Z', .ofChars 'a' 'z']),
   ("alpha", .ofRanges [.ofChars 'A' 'Z', .ofChars 'a' 'z']),
   ("ascii", .ofRanges [.ofChars '\x00' '\x7f']),
   ("blank", .ofList ['\t', ' ']),
   ("cntrl", .ofRanges [.ofChars '\x00' '\x1f', .single '\x7f']),
   ("digit", digit),
   ("graph", .ofRanges [.ofChars '!' '~']),
   ("lower", .ofRanges [.ofChars 'a' 'z']),
   ("print", .ofRanges [.ofChars ' ' '~']),
   ("punct", .ofRanges
     [.ofChars '!' '/', .ofChars ':' '@', .ofChars '[' '\x60', .ofChars '\x7b' '~']),
   ("space", space),
   ("upper", .ofRanges [.ofChars 'A' 'Z']),
   ("word", word),
   ("xdigit", .ofRanges [.ofChars '0' '9', .ofChars 'A' 'F', .ofChars 'a' 'f'])]

end CharSet

end EntityFilter
