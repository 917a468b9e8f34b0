import EntityFilter.Proofs.ShapeScan
import EntityFilter.Proofs.WrittenPatterns

/-!
# The scanner of shapes is exact

The scanner reads a pattern character by character and knows nothing of its tree.  Still it finds a
danger in the text of an expression exactly if some group is repeated more often than its body
allows (`Written.Expression.danger?_exact`).  Every part of an expression is judged alike,
whatever stands around it (`Shape.Judges`): if there is a danger in it, the scanner stops, and if
not, the scanner goes on behind it and knows what is inside.

There is one spelling that the scanner does not know.  At the end of a range the opening bracket
needs no backslash, but the scanner takes it for the beginning of an inner class, and passes over
the rest of the pattern as if it stood in the class (`Written.Expression.overlooks_bracket`).
-/

namespace EntityFilter

namespace Pattern

namespace Shape

variable {t t' : State} {c : Char} {cs text text' rest : List Char} {b b' : Body}
  {bad bad' : Prop}

/-! ## Judging a text -/

/-- What is inside two bodies together. -/
def Body.join (b b' : Body) : Body :=
  ⟨b.unbounded || b'.unbounded, b.alternation || b'.alternation⟩

@[simp]
lemma Body.join_empty (b : Body) : b.join {} = b := by simp [join]

@[simp]
lemma Body.empty_join (b : Body) : Body.join {} b = b := by simp [join]

lemma Body.join_assoc (b b' b'' : Body) : (b.join b').join b'' = b.join (b'.join b'') := by
  simp [join, Bool.or_assoc]

/-- The scanner stops at a danger in a text. -/
def Stops (t : State) (text : List Char) : Prop := ∀ rest, (scan t (text ++ rest)).isSome

/-- The scanner goes on behind a text and knows what is inside. -/
structure Passes (t : State) (text : List Char) (b : Body) (t' : State) : Prop where
  mode : t'.mode = .plain
  body : t'.body = t.body.join b
  around : t'.around = t.around
  scan_eq : ∀ rest, scan t (text ++ rest) = scan t' rest

/-- The scanner stops in a text if it is bad, and else goes on behind it. -/
structure Judges (t : State) (text : List Char) (b : Body) (bad : Prop) : Prop where
  stops : bad → Stops t text
  passes : ¬bad → ∃ t', Passes t text b t'

lemma Judges.nil (hmode : t.mode = .plain) : Judges t [] {} False where
  stops h := h.elim
  passes _ := ⟨t, hmode, (Body.join_empty _).symm, rfl, fun _ => rfl⟩

/-- A text and what stands behind it. -/
lemma Judges.append (h : Judges t text b bad)
    (h' : ∀ t' : State, t'.mode = .plain → Judges t' text' b' bad') :
    Judges t (text ++ text') (b.join b') (bad ∨ bad') := by
  have hstops : bad → Stops t (text ++ text') := by
    intro hbad rest
    rw [List.append_assoc]
    exact h.stops hbad _
  by_cases hbad : bad
  · exact ⟨fun _ => hstops hbad, fun hgood => absurd (.inl hbad) hgood⟩
  · obtain ⟨t₁, hpass⟩ := h.passes hbad
    obtain ⟨hstops', hpasses'⟩ := h' t₁ hpass.mode
    constructor
    · intro hor rest
      rw [List.append_assoc, hpass.scan_eq]
      exact hstops' (hor.resolve_left hbad) rest
    · intro hgood
      obtain ⟨t₂, hpass'⟩ := hpasses' fun hbad' => hgood (.inr hbad')
      refine ⟨t₂, hpass'.mode, ?_, hpass'.around.trans hpass.around, fun rest => ?_⟩
      · rw [hpass'.body, hpass.body, Body.join_assoc]
      · rw [List.append_assoc, hpass.scan_eq, hpass'.scan_eq]

/-! ## Repetitions -/

/-- A repetition is a danger to the group that has just been closed, or the scanner goes on. -/
lemma scan_eq_of_repeatLast {n : Count} (mode : Mode) (hstep : t.step c cs = t.repeatLast n mode) :
    scan t (c :: cs) = (t.closed.bind n.danger?).or (scan { t.repeated n with mode } cs) := by
  rw [scan, hstep]
  unfold State.repeatLast
  cases t.closed.bind n.danger? with
  | some d => rfl
  | none => rfl

/-- A counted repetition is read between its braces. -/
lemma scan_counted {n : Count} (hmode : t.mode = .plain) (hbrace : '}' ∉ text)
    (hcount : countOf? text = some n) :
    scan t ('{' :: (text ++ '}' :: rest)) =
      (t.closed.bind n.danger?).or (scan (t.repeated n) rest) := by
  have hcounted : counted? (text ++ '}' :: rest) = some (n, text.length + 1) := by
    rw [counted?_eq hbrace, hcount, Option.map_some]
  have hstep : t.step '{' (text ++ '}' :: rest) = t.repeatLast n (.skipping (text.length + 1)) := by
    rw [State.step, hmode]
    simp [State.plain, hcounted]
  have hdrop : (text ++ '}' :: rest).drop (text.length + 1) = rest := by
    rw [List.append_cons]
    exact List.drop_left' (by simp)
  rw [scan_eq_of_repeatLast _ hstep, scan_skipping (by omega), hdrop]
  rfl

end Shape

open Shape

namespace Written

/-! ### Bounds -/

/-- How often the scanner takes a repetition to repeat. -/
def Bounds.count : Bounds → Count
  | star | plus | atLeast _ => .unbounded
  | option | exactly _ => .few
  | between _ m => if m.value ≤ 1 then .few else .counted

variable {t : State} {rest : List Char}

lemma Numeral.number?_chars (n : Numeral) : number? n.chars = some n.value :=
  Reader.number?_eq_some (List.all_eq_true.mp n.blank_before) (List.all_eq_true.mp n.isDigit)
    (List.all_eq_true.mp n.blank_after) n.ne_nil n.lt

lemma Numeral.notMem_chars (n : Numeral) : '}' ∉ n.chars ∧ ',' ∉ n.chars := by
  refine notMem_of_number fun c hc => ?_
  rw [chars, List.mem_append, List.mem_append] at hc
  rcases hc with hc | hc | hc
  · exact .inl (List.all_eq_true.mp n.blank_before c hc)
  · exact .inr (List.all_eq_true.mp n.isDigit c hc)
  · exact .inl (List.all_eq_true.mp n.blank_after c hc)

/-- There is a digit in a number, and digits are no blanks. -/
lemma Numeral.not_isEmpty_strip (n : Numeral) :
    ¬(Text.stripWhile Text.isBlank n.chars).isEmpty := by
  intro hempty
  have hnumber := n.number?_chars
  simp [number?, List.isEmpty_iff.mp hempty] at hnumber

lemma Bounds.scan_chars (r : Bounds) (hmode : t.mode = .plain) :
    scan t (r.chars ++ rest) =
      (t.closed.bind r.count.danger?).or (scan (t.repeated r.count) rest) := by
  cases r with
  | option | star | plus =>
    refine (scan_eq_of_repeatLast .plain ?_).trans rfl
    rw [State.step, hmode]
    rfl
  | exactly n =>
    obtain ⟨hbrace, hcomma⟩ := n.notMem_chars
    have htext : chars (exactly n) ++ rest = '{' :: (n.chars ++ '}' :: rest) := by simp [chars]
    rw [htext]
    exact scan_counted hmode hbrace (countOf?_exact hcomma n.number?_chars)
  | atLeast n =>
    obtain ⟨hbrace, hcomma⟩ := n.notMem_chars
    have htext : chars (atLeast n) ++ rest = '{' :: ((n.chars ++ [',']) ++ '}' :: rest) := by
      simp [chars]
    rw [htext]
    refine scan_counted hmode (by simpa using hbrace) ?_
    exact (countOf?_range hcomma n.number?_chars).trans (if_pos rfl)
  | between n m =>
    obtain ⟨hbrace, hcomma⟩ := n.notMem_chars
    have htext : chars (between n m) ++ rest =
        '{' :: ((n.chars ++ ',' :: m.chars) ++ '}' :: rest) := by
      simp [chars]
    rw [htext]
    refine scan_counted hmode (by simpa using ⟨hbrace, m.notMem_chars.1⟩) ?_
    rw [countOf?_range hcomma n.number?_chars, if_neg m.not_isEmpty_strip, m.number?_chars]
    rfl

/-- A repetition is a danger to the group that has just been closed, or the scanner goes on. -/
lemma Repetition.scan_chars (r : Repetition) (hmode : t.mode = .plain) :
    scan t (r.chars ++ rest) =
      (t.closed.bind r.bounds.count.danger?).or (scan (t.repeated r.bounds.count) rest) := by
  rw [chars, List.append_assoc, r.bounds.scan_chars hmode]
  congr 1
  cases r.reluctant with
  | false => rfl
  | true =>
    have hskip : scan (t.repeated r.bounds.count) (Reader.skipReluctant ('?' :: rest)) =
        scan (t.repeated r.bounds.count) ('?' :: rest) := scan_skipReluctant r.bounds.count
    exact hskip.symm

/-! ## Items -/

/-- An escape is one for the scanner, whatever stands behind it. -/
lemma Escape.escapeText (e : Escape) (rest : List Char) :
    Reader.EscapeText rest (e.behind ++ rest) := by
  have hbraces : ∀ width : CodeWidth, Reader.opensBraces width.letter := by
    intro width
    cases width <;> rfl
  cases e with
  | char c single => exact .char single
  | digits width ds hex size =>
    refine .digits (hbraces width) hex ?_
    rintro rfl
    cases width <;> simp [CodeWidth.size] at size
  | braces width ds hex =>
    have htext : behind (braces width ds hex) ++ rest =
        width.letter :: '{' :: (ds ++ '}' :: rest) := by simp [behind]
    rw [htext]
    exact .braces (hbraces width) hex
  | boundary name known =>
    obtain ⟨x, hx, rfl⟩ := List.mem_map.mp known
    have htext : behind (boundary x.1 known) ++ rest =
        'b' :: '{' :: (x.1.toList ++ '}' :: rest) := by simp [behind]
    rw [htext]
    exact .boundary (l := x.2) hx

lemma Escape.scan_chars (e : Escape) (hmode : t.mode = .plain) :
    scan t (e.chars ++ rest) = scan t.passed rest :=
  scan_escape (e.escapeText rest) hmode

/-- A character of a class is passed over. -/
lemma ClassChar.scan_chars (k : ClassChar) :
    scan (t.inClass 0) (k.chars ++ rest) = scan (t.inClass 0) rest := by
  cases k with
  | char c inner =>
    have hinner : ∀ d ∈ [c], isInner d := by simpa [isInner] using inner
    exact scan_inClass hinner 0
  | escape e => exact scan_classEscape (e.escapeText rest)

/-- An item of a class is passed over, unless it ends in a bracket. -/
lemma ClassItem.scan_chars {i : ClassItem} (h : ¬i.endsInBracket) :
    scan (t.inClass 0) (i.chars ++ rest) = scan (t.inClass 0) rest := by
  cases i with
  | single k => exact k.scan_chars
  | range first last =>
    have hhyphen : ∀ d ∈ ['-'], isInner d := by simp [isInner]
    have hrange : chars (range first last) ++ rest =
        first.chars ++ (['-'] ++ (last.chars ++ rest)) := by simp [chars]
    rw [hrange, first.scan_chars, scan_inClass hhyphen, last.scan_chars]
  | rangeToBracket first => exact absurd rfl h
  | named negated name known =>
    have hsign : sign negated = [] ∨ sign negated = ['^'] := by
      cases negated
      · exact .inl rfl
      · exact .inr rfl
    have hnamed : chars (named negated name known) ++ rest =
        '[' :: ':' :: (sign negated ++ (name.toList ++ ':' :: ']' :: rest)) := by simp [chars]
    rw [hnamed]
    exact scan_classNamed hsign known

lemma ClassItem.scan_flatMap {is : List ClassItem} (h : ∀ i ∈ is, ¬i.endsInBracket) :
    scan (t.inClass 0) (is.flatMap chars ++ rest) = scan (t.inClass 0) rest := by
  induction is with
  | nil => rfl
  | cons i is ih =>
    obtain ⟨hi, his⟩ := List.forall_mem_cons.mp h
    rw [List.flatMap_cons, List.append_assoc, scan_chars hi, ih his]

/-- No item of a class begins with a closing bracket. -/
lemma ClassItem.head?_chars (i : ClassItem) : ∃ c cs, i.chars = c :: cs ∧ c ≠ ']' := by
  have hchar : ∀ k : ClassChar, ∃ c cs, k.chars = c :: cs ∧ c ≠ ']' := by
    intro k
    cases k with
    | char c inner => exact ⟨c, [], rfl, inner.2.2⟩
    | escape e => exact ⟨'\\', e.behind, rfl, by decide⟩
  cases i with
  | single k => exact hchar k
  | range first last =>
    obtain ⟨c, cs, hcs, hc⟩ := hchar first
    exact ⟨c, cs ++ '-' :: last.chars, by simp [chars, hcs], hc⟩
  | rangeToBracket first =>
    obtain ⟨c, cs, hcs, hc⟩ := hchar first
    exact ⟨c, cs ++ ['-', '['], by simp [chars, hcs], hc⟩
  | named negated name known =>
    exact ⟨'[', _, rfl, by decide⟩

/-- A class is passed over, unless a range in it ends in a bracket. -/
lemma Class.scan_chars (k : Class) (h : ∀ i ∈ k.items, ¬i.endsInBracket) (hmode : t.mode = .plain) :
    scan t (k.chars ++ rest) = scan t.passed rest := by
  have hopen : ∀ cs, scan t ('[' :: cs) = scan { t.passed with mode := .classStart } cs := by
    intro cs
    refine scan_cons ?_
    rw [State.step, hmode]
    rfl
  -- behind what comes first, the items stand up to the closing bracket
  have hitems : scan (t.passed.inClass 0) (k.items.flatMap ClassItem.chars ++ ']' :: rest) =
      scan t.passed rest := by
    rw [ClassItem.scan_flatMap h]
    exact scan_cons rfl
  have hfirst : scan { t.passed with mode := .classFirst }
      ((if k.bracketFirst then [']'] else []) ++
        (k.items.flatMap ClassItem.chars ++ ']' :: rest)) = scan t.passed rest := by
    cases hbracket : k.bracketFirst with
    | true => exact (scan_cons rfl).trans hitems
    | false =>
      obtain ⟨i, is, his⟩ := List.exists_cons_of_ne_nil
        (k.nonempty.resolve_left (by simp [hbracket]))
      obtain ⟨c, cs, hcs, hc⟩ := i.head?_chars
      rw [his, List.flatMap_cons, hcs] at hitems ⊢
      exact (scan_classFirst hc).trans hitems
  have htext : k.chars ++ rest = '[' :: (ClassItem.sign k.negated ++
      ((if k.bracketFirst then [']'] else []) ++
        (k.items.flatMap ClassItem.chars ++ ']' :: rest))) := by simp [chars]
  rw [htext, hopen]
  cases hnegated : k.negated with
  | true => exact (scan_cons rfl).trans hfirst
  | false =>
    refine (scan_classStart ?_).trans hfirst
    have hunsigned := k.unsigned.resolve_left (by simp [hnegated])
    cases hbracket : k.bracketFirst with
    | true => simp [ClassItem.sign]
    | false =>
      obtain ⟨i, is, his⟩ := List.exists_cons_of_ne_nil
        (k.nonempty.resolve_left (by simp [hbracket]))
      obtain ⟨c, cs, hcs, -⟩ := i.head?_chars
      have hhead := hunsigned.resolve_left (by simp [hbracket])
      rw [his, List.flatMap_cons, hcs] at hhead ⊢
      simpa [ClassItem.sign] using hhead

/-- A single item is passed over. -/
lemma Item.scan_chars (i : Item) (h : ¬i.endsInBracket) (hmode : t.mode = .plain) :
    scan t (i.chars ++ rest) = scan t.passed rest := by
  cases i with
  | literal c plain =>
    simp only [isLiteral, Bool.and_eq_true] at plain
    exact scan_ordinary hmode plain.1.1.1
  | dot | caret | dollar => exact scan_ordinary hmode rfl
  | escape e => exact e.scan_chars hmode
  | oneOf k => exact k.scan_chars (by simpa [endsInBracket] using h) hmode

/-! ## Groups -/

/-- The beginning of a group is passed over. -/
lemma Opening.scan_behind (o : Opening) (hmode : t.mode = .plain) (hrest : rest.head? ≠ some '?') :
    scan t ('(' :: (o.behind ++ rest)) = scan t.opened rest := by
  rw [scan_open hmode]
  cases o with
  | capture => exact scan_groupStart hrest
  | named letter first others isName =>
    have hothers := List.all_eq_true.mp isName.2
    have hinert : Reader.IsInert ((if letter then ['P', '<'] else ['<']) ++ first :: others) := by
      have hfront : ∀ c ∈ (if letter then ['P', '<'] else ['<']), c ≠ ':' ∧ c ≠ '>' ∧ c ≠ ')' := by
        cases letter <;> simp
      refine List.forall_mem_append.mpr ⟨hfront, List.forall_mem_cons.mpr ⟨?_, fun c hc => ?_⟩⟩
      · refine ⟨?_, ?_, ?_⟩ <;> rintro rfl <;> exact absurd isName.1 (by decide)
      · refine ⟨?_, ?_, ?_⟩ <;> rintro rfl <;> exact absurd (hothers _ hc) (by decide)
    have hopens : Reader.OpensWith '>' ((named letter first others isName).behind ++ rest) rest :=
      ⟨_, hinert, by simp [behind]⟩
    exact (scan_opensWith hopens).trans (scan_cons rfl)
  | flags on off known =>
    have hflag : ∀ c ∈ 'x' :: flagsOn, c ≠ ':' ∧ c ≠ '>' ∧ c ≠ ')' := by simp [flagsOn]
    have hon : ∀ c ∈ on, c ∈ flagsOn := by simpa using known.1
    have hoff : ∀ c ∈ off, c ∈ 'x' :: flagsOn := by simpa using known.2
    have hinert : Reader.IsInert (on ++ if off.isEmpty then [] else '-' :: off) := by
      refine List.forall_mem_append.mpr ⟨fun c hc => ?_, fun c hc => ?_⟩
      · exact hflag c (List.mem_cons_of_mem _ (hon c hc))
      · split at hc
        · exact absurd hc List.not_mem_nil
        · rcases List.mem_cons.mp hc with rfl | hc
          · decide
          · exact hflag c (hoff c hc)
    have hopens : Reader.OpensWith ':' ((flags on off known).behind ++ rest) rest :=
      ⟨_, hinert, by simp [behind]⟩
    exact (scan_opensWith hopens).trans (scan_cons rfl)

/-- No piece begins with a question mark. -/
lemma Piece.head?_chars (p : Piece) : ∃ c cs, p.chars = c :: cs ∧ c ≠ '?' := by
  have hitem : ∀ i : Item, ∃ c cs, i.chars = c :: cs ∧ c ≠ '?' := by
    intro i
    cases i with
    | literal c plain =>
      refine ⟨c, [], rfl, ?_⟩
      rintro rfl
      exact absurd plain (by decide)
    | dot | caret | dollar => exact ⟨_, [], rfl, by decide⟩
    | escape e => exact ⟨'\\', e.behind, rfl, by decide⟩
    | oneOf k => exact ⟨'[', _, rfl, by decide⟩
  cases p with
  | item i r =>
    obtain ⟨c, cs, hcs, hc⟩ := hitem i
    exact ⟨c, cs ++ repetitionChars r, by simp [chars, hcs], hc⟩
  | group opening body r => exact ⟨'(', _, rfl, by decide⟩

/-- Behind the beginning of a group that captures there is no question mark. -/
lemma Expression.head?_chars (e : Expression) (hrest : rest.head? ≠ some '?') :
    (e.chars ++ rest).head? ≠ some '?' := by
  have hbranch : ∀ (b : Branch) {rest : List Char}, rest.head? ≠ some '?' →
      (b.chars ++ rest).head? ≠ some '?' := by
    intro b rest hrest
    cases b with
    | empty => exact hrest
    | cons p others =>
      obtain ⟨c, cs, hcs, hc⟩ := p.head?_chars
      simpa [Branch.chars, hcs] using hc
  cases e with
  | branch b => exact hbranch b hrest
  | alternative b others =>
    rw [chars, List.append_assoc]
    exact hbranch b (by simp)

/-! ## Expressions -/

mutual

/-- What the scanner knows of an expression that it has read. -/
def Expression.inside : Expression → Body
  | .branch b => b.inside
  | .alternative b others => b.inside.join (Body.join ⟨false, true⟩ others.inside)

/-- What the scanner knows of a branch that it has read. -/
def Branch.inside : Branch → Body
  | .empty => {}
  | .cons p rest => p.inside.join rest.inside

/-- What the scanner knows of a piece that it has read. -/
def Piece.inside : Piece → Body
  | .item _ r => ⟨r.any (·.bounds.isUnbounded), false⟩
  | .group _ body r => body.inside.join ⟨r.any (·.bounds.isUnbounded), false⟩

end

mutual

/-- What the scanner knows of an expression is what is inside it. -/
theorem Expression.inside_iff : ∀ e : Expression,
    (e.inside.unbounded ↔ e.HasUnbounded) ∧ (e.inside.alternation ↔ e.HasAlternation)
  | .branch b => by
    obtain ⟨hunbounded, halternation⟩ := b.inside_iff
    refine ⟨hunbounded, ?_⟩
    rw [Expression.inside, halternation]
    simp [Expression.HasAlternation, Expression.isAlternation, Expression.pieces]
  | .alternative b others => by
    obtain ⟨hunbounded, -⟩ := b.inside_iff
    obtain ⟨hunbounded', -⟩ := others.inside_iff
    constructor
    · simp only [Expression.inside, Body.join, Bool.or_eq_true, hunbounded, hunbounded',
        Bool.false_eq_true, false_or]
      simp only [Expression.HasUnbounded, Expression.pieces, List.mem_append, or_and_right,
        exists_or]
    · simp [Expression.inside, Body.join, Expression.HasAlternation, Expression.isAlternation]

theorem Branch.inside_iff : ∀ b : Branch,
    (b.inside.unbounded ↔ ∃ p ∈ b.pieces, p.isUnbounded) ∧
      (b.inside.alternation ↔ ∃ p ∈ b.pieces, ∃ body ∈ p.body?, body.isAlternation)
  | .empty => by simp [Branch.inside, Branch.pieces]
  | .cons p rest => by
    obtain ⟨hunbounded, halternation⟩ := p.inside_iff
    obtain ⟨hunbounded', halternation'⟩ := rest.inside_iff
    simp only [Branch.inside, Body.join, Bool.or_eq_true, hunbounded, hunbounded', halternation,
      halternation', Branch.pieces, List.mem_append, or_and_right, exists_or, and_self]

theorem Piece.inside_iff : ∀ p : Piece,
    (p.inside.unbounded ↔ ∃ q ∈ p.pieces, q.isUnbounded) ∧
      (p.inside.alternation ↔ ∃ q ∈ p.pieces, ∃ body ∈ q.body?, body.isAlternation)
  | .item i r => by
    simp [Piece.inside, Piece.pieces, Piece.isUnbounded, Piece.repetition?, Piece.body?]
  | .group opening body r => by
    obtain ⟨hunbounded, halternation⟩ := body.inside_iff
    simp only [Piece.inside, Body.join, Bool.or_eq_true, hunbounded, halternation, Piece.pieces,
      List.exists_mem_cons_iff]
    constructor
    · exact or_comm
    · simp [Expression.HasAlternation, Piece.body?]

end

/-- A repetition of a group is a danger for the scanner exactly if it is one. -/
lemma Bounds.isSome_danger?_iff (r : Bounds) (e : Expression) :
    (r.count.danger? e.inside).isSome ↔
      r.isUnbounded ∧ (e.HasUnbounded ∨ e.HasAlternation) ∨ r.isCounted ∧ e.HasUnbounded := by
  obtain ⟨hunbounded, halternation⟩ := e.inside_iff
  rw [← hunbounded, ← halternation]
  have hunlimited : (Count.danger? .unbounded e.inside).isSome ↔
      e.inside.unbounded ∨ e.inside.alternation := by
    unfold Count.danger?
    cases e.inside.unbounded <;> cases e.inside.alternation <;> simp
  have hcounted : (Count.danger? .counted e.inside).isSome ↔ e.inside.unbounded := by
    unfold Count.danger?
    cases e.inside.unbounded <;> simp
  cases r with
  | star | plus | atLeast => simpa [count, isUnbounded, isCounted] using hunlimited
  | option | exactly => simp [count, isUnbounded, isCounted, Count.danger?]
  | between n m =>
    by_cases hm : m.value ≤ 1
    · have hlt : ¬1 < m.value := by omega
      simp [count, isUnbounded, isCounted, hm, hlt, Count.danger?]
    · have hlt : 1 < m.value := by omega
      simpa [count, isUnbounded, isCounted, hm, hlt] using hcounted

lemma Bounds.isUnbounded_eq (r : Bounds) : r.isUnbounded = (r.count == .unbounded) := by
  cases r with
  | between n m =>
    simp only [isUnbounded, count]
    split <;> rfl
  | _ => rfl

/-- Behind an item that has been passed over, a repetition is no danger. -/
lemma judges_item (i : Item) (r : Option Repetition) (hmode : t.mode = .plain)
    (h : ¬i.endsInBracket) :
    Judges t (Piece.item i r).chars (Piece.item i r).inside False := by
  refine ⟨False.elim, fun _ => ?_⟩
  cases r with
  | none =>
    refine ⟨t.passed, rfl, (Body.join_empty _).symm, rfl, fun rest => ?_⟩
    rw [Piece.chars, List.append_assoc, i.scan_chars h hmode]
    rfl
  | some r =>
    refine ⟨t.passed.repeated r.bounds.count, rfl, ?_, rfl, fun rest => ?_⟩
    · simp [Piece.inside, Body.join, State.repeated, State.passed, r.bounds.isUnbounded_eq]
    · rw [Piece.chars, List.append_assoc, i.scan_chars h hmode]
      exact r.scan_chars rfl

/-- A group is bad if its body is, or if it is repeated too often. -/
lemma judges_group {opening : Opening} {body : Expression} {r : Option Repetition} {bad : Prop}
    (hmode : t.mode = .plain)
    (hbody : ∀ t : State, t.mode = .plain → Judges t body.chars body.inside bad) :
    Judges t (Piece.group opening body r).chars (Piece.group opening body r).inside
      ((Piece.group opening body r).IsDangerous ∨ bad) := by
  have hopen : ∀ rest, scan t ((Piece.group opening body r).chars ++ rest) =
      scan t.opened (body.chars ++ ')' :: (repetitionChars r ++ rest)) := by
    intro rest
    have htext : (Piece.group opening body r).chars ++ rest =
        '(' :: (opening.behind ++ (body.chars ++ ')' :: (repetitionChars r ++ rest))) := by
      simp [Piece.chars]
    rw [htext]
    exact opening.scan_behind hmode (body.head?_chars (by simp))
  obtain ⟨hstops, hpasses⟩ := hbody t.opened rfl
  by_cases hbad : bad
  · refine ⟨fun _ rest => ?_, fun hgood => absurd (.inr hbad) hgood⟩
    rw [hopen]
    exact hstops hbad _
  obtain ⟨t₁, hpass⟩ := hpasses hbad
  -- the scanner behind the parenthesis that closes the group
  have hclose : ∀ rest, scan t ((Piece.group opening body r).chars ++ rest) =
      scan (t₁.closedBy t.body t.around) (repetitionChars r ++ rest) := by
    intro rest
    rw [hopen, hpass.scan_eq]
    exact scan_close hpass.mode hpass.around
  have hclosed : (t₁.closedBy t.body t.around).closed = some body.inside := by
    have hinside : t₁.body = body.inside := hpass.body.trans (Body.empty_join _)
    rw [State.closedBy, hinside]
  have hjoin : (t₁.closedBy t.body t.around).body = t.body.join body.inside := by
    have hinside : t₁.body = body.inside := hpass.body.trans (Body.empty_join _)
    rw [State.closedBy, hinside]
    rfl
  cases r with
  | none =>
    refine ⟨fun hor => ?_, fun _ => ⟨t₁.closedBy t.body t.around, rfl, ?_, rfl, hclose⟩⟩
    · simp [Piece.IsDangerous, Piece.repetition?, hbad] at hor
    · rw [hjoin]
      exact congrArg _ (Body.join_empty _).symm
  | some r =>
    have hdangerous : (Piece.group opening body (some r)).IsDangerous ↔
        (r.bounds.count.danger? body.inside).isSome := by
      rw [Bounds.isSome_danger?_iff]
      simp [Piece.IsDangerous, Piece.repetition?, Piece.body?]
    have hrepeat : ∀ rest, scan t ((Piece.group opening body (some r)).chars ++ rest) =
        (r.bounds.count.danger? body.inside).or
          (scan ((t₁.closedBy t.body t.around).repeated r.bounds.count) rest) := by
      intro rest
      rw [hclose]
      refine (r.scan_chars rfl).trans ?_
      rw [hclosed, Option.bind_some]
    refine ⟨fun hor rest => ?_, fun hgood => ⟨(t₁.closedBy t.body t.around).repeated r.bounds.count,
      rfl, ?_, rfl, fun rest => ?_⟩⟩
    · rw [hrepeat, Option.isSome_or, hdangerous.mp (hor.resolve_right hbad), Bool.true_or]
    · rw [Piece.inside, ← Body.join_assoc, ← hjoin, Option.any_some, r.bounds.isUnbounded_eq]
      simp [State.repeated, State.passed, Body.join]
    · have hnone : r.bounds.count.danger? body.inside = none := by
        rw [← Option.not_isSome_iff_eq_none, ← hdangerous]
        exact fun hp => hgood (.inl hp)
      rw [hrepeat, hnone, Option.none_or]

mutual

/-- An expression is bad if a group in it is repeated more often than its body allows. -/
theorem judges_expression : ∀ (e : Expression) (t : State), t.mode = .plain → e.EscapesBrackets →
    Judges t e.chars e.inside e.IsDangerous
  | .branch b, t, hmode, h => judges_branch b t hmode h
  | .alternative b others, t, hmode, h => by
    obtain ⟨hb, hothers⟩ := List.forall_mem_append.mp h
    have hbar : ∀ t : State, t.mode = .plain → Judges t ['|'] ⟨false, true⟩ False := by
      intro t hmode
      refine ⟨False.elim, fun _ => ⟨_, ?_, ?_, ?_, fun rest => scan_bar hmode⟩⟩
      · rfl
      · simp [Body.join]
      · rfl
    have hall := (judges_branch b t hmode hb).append fun t hmode =>
      (hbar t hmode).append fun t hmode => judges_expression others t hmode hothers
    have hbad : (Expression.alternative b others).IsDangerous ↔
        (∃ p ∈ b.pieces, p.IsDangerous) ∨ False ∨ others.IsDangerous := by
      simp only [Expression.IsDangerous, Expression.pieces, List.mem_append, or_and_right,
        exists_or, false_or]
    rw [hbad]
    exact hall

theorem judges_branch : ∀ (b : Branch) (t : State), t.mode = .plain →
    (∀ p ∈ b.pieces, ¬p.endsInBracket) → Judges t b.chars b.inside (∃ p ∈ b.pieces, p.IsDangerous)
  | .empty, t, hmode, _ => by
    have hbad : (∃ p ∈ Branch.empty.pieces, p.IsDangerous) ↔ False := by simp [Branch.pieces]
    rw [hbad]
    exact .nil hmode
  | .cons p rest, t, hmode, h => by
    obtain ⟨hp, hrest⟩ := List.forall_mem_append.mp h
    have hall := (judges_piece p t hmode hp).append fun t hmode => judges_branch rest t hmode hrest
    have hbad : (∃ q ∈ (Branch.cons p rest).pieces, q.IsDangerous) ↔
        (∃ q ∈ p.pieces, q.IsDangerous) ∨ ∃ q ∈ rest.pieces, q.IsDangerous := by
      simp only [Branch.pieces, List.mem_append, or_and_right, exists_or]
    rw [hbad]
    exact hall

theorem judges_piece : ∀ (p : Piece) (t : State), t.mode = .plain →
    (∀ q ∈ p.pieces, ¬q.endsInBracket) → Judges t p.chars p.inside (∃ q ∈ p.pieces, q.IsDangerous)
  | .item i r, t, hmode, h => by
    have hbad : (∃ q ∈ (Piece.item i r).pieces, q.IsDangerous) ↔ False := by
      simp [Piece.pieces, Piece.IsDangerous, Piece.body?]
    rw [hbad]
    exact judges_item i r hmode (h _ List.mem_cons_self)
  | .group opening body r, t, hmode, h => by
    have hbad : (∃ q ∈ (Piece.group opening body r).pieces, q.IsDangerous) ↔
        (Piece.group opening body r).IsDangerous ∨ body.IsDangerous :=
      List.exists_mem_cons_iff ..
    rw [hbad]
    exact judges_group hmode fun t hmode =>
      judges_expression body t hmode fun q hq => h q (List.mem_cons_of_mem _ hq)

end

/-- **The scanner is exact.**  It finds a danger in the text of an expression if and only if some
group is repeated more often than its body allows, provided that no range of a class ends in an
opening bracket without a backslash. -/
theorem Expression.danger?_exact (e : Expression) (h : e.EscapesBrackets) :
    (danger? e.text).isSome ↔ e.IsDangerous := by
  have hdanger : danger? e.text = scan {} (e.chars ++ []) := by
    rw [danger?, text, String.toList_ofList, List.append_nil]
  obtain ⟨hstops, hpasses⟩ := judges_expression e {} rfl h
  rw [hdanger]
  by_cases hbad : e.IsDangerous
  · exact iff_of_true (hstops hbad []) hbad
  · obtain ⟨t', hpass⟩ := hpasses hbad
    rw [hpass.scan_eq]
    exact iff_of_false (by simp [scan]) hbad

/-- A word, which is repeated, with a class that begins with a closing bracket, and then a group
that is repeated without danger. -/
def words : Expression :=
  .ofPieces [
    .group (.named true 'w' ['o', 'r', 'd'])
      (.alternative
        (.cons (.item (.oneOf {
            negated := true
            bracketFirst := true
            items := [.single (.escape (.braces .two ['5', 'd'])),
              .range (.char 'a') (.escape (.char ']')), .named false "alpha"] })
          (some ⟨.plus, true⟩)) .empty)
        (.ofPieces [.char '-']))
      (some ⟨.between { digits := ['2'] } { digits := ['1', '0'] }, false⟩),
    .group (.flags ['i'] ['s']) (.ofPieces [.char 'x', .item (.escape (.char 'd')) none])
      (some ⟨.star, false⟩)]

theorem Expression.danger?_exact_words :
    words.EscapesBrackets ∧
      words.text =
        "(?P<word>[^]\\x\x7b5d\x7da-\\][:alpha:]]+?|-)\x7b2,10\x7d(?i-s:x\\d)*" ∧
      ((danger? words.text).isSome ↔ words.IsDangerous) ∧ words.IsDangerous :=
  ⟨by decide, by decide, words.danger?_exact (by decide), by decide⟩

/-- A range from a letter to the opening bracket, in a class alone, and then a group that repeats
without bound and is itself repeated without bound. -/
def hiddenGroup : Expression :=
  .ofPieces [
    .item (.oneOf { items := [.rangeToBracket (.char 'A')] }) none,
    .group .capture (.ofPieces [.char 'a' (some ⟨.plus, false⟩)]) (some ⟨.plus, false⟩)]

/-- The same class in a group that repeats a character, and then a group that repeats nothing and is
repeated itself.  Its first bracket ends what the scanner takes for a class, and its parenthesis what
the scanner takes for the first group. -/
def pretendedGroup : Expression :=
  .ofPieces [
    .group .capture
      (.ofPieces [
        .char 'b' (some ⟨.plus, false⟩),
        .item (.oneOf { items := [.rangeToBracket (.char 'A')] }) none,
        .char 'a'])
      none,
    .group .capture (.ofPieces [.char ']', .char ']']) (some ⟨.star, false⟩)]

/-- **The spelling that the scanner does not know.**  Behind a range that ends in an opening bracket
it overlooks a danger, and it finds one where there is none.  The library reads both texts. -/
theorem Expression.overlooks_bracket :
    (hiddenGroup.text = "[A-[](a+)+" ∧ (compile? hiddenGroup.text).isSome ∧
      hiddenGroup.IsDangerous ∧ danger? hiddenGroup.text = none) ∧
    (pretendedGroup.text = "(b+[A-[]a)(]])*" ∧ (compile? pretendedGroup.text).isSome ∧
      ¬pretendedGroup.IsDangerous ∧ (danger? pretendedGroup.text).isSome) := by
  decide

end Written

end Pattern

end EntityFilter
