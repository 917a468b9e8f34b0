import EntityFilter.Proofs.IgnoredCase
import EntityFilter.SearchMode
import Mathlib.Data.List.SplitBy
import Mathlib.Data.List.TakeWhile

/-!
# Phrases

The words of a text are its longest runs of letters and numbers, in lower case
(`SearchMode.wordsOf`).  A phrase search looks for something else: it cuts the query at blanks only,
and it cuts the document at every character that is neither letter nor number, so that two such
characters have an empty piece between them.

The pieces of a document that are not empty are its words (`Text.filter_splitOnElement`), so
whatever is found are consecutive words.  But a term of the query that is more than a word is no
piece, and an empty piece between two words keeps them apart: words stand one after the other among
the pieces where the document has one separator between each two (`SearchMode.infix_pieces_iff`).
`SearchMode.phrase_exact_iff` puts the two together.
-/

namespace EntityFilter

namespace Text

variable {α : Type} {p : α → Bool} {x : α} {xs ys run : List α}

/-! ## Pieces and runs -/

/-- The longest runs of elements that satisfy a predicate. -/
def runs (p : α → Bool) (xs : List α) : List (List α) :=
  (xs.splitBy fun x y => p x == p y).filter (·.all p)

lemma splitOnElement_ne_nil (p : α → Bool) (xs : List α) : splitOnElement p xs ≠ [] := by
  cases xs with
  | nil => simp [splitOnElement]
  | cons x xs =>
    rw [splitOnElement]
    split
    · simp
    · split <;> simp

lemma splitOnElement_cons_of (hx : p x = true) (xs : List α) :
    splitOnElement p (x :: xs) = [] :: splitOnElement p xs := by
  rw [splitOnElement]
  cases h : splitOnElement p xs with
  | nil => exact absurd h (splitOnElement_ne_nil p xs)
  | cons piece pieces => exact if_pos hx

lemma splitOnElement_cons_of_not (hx : p x = false) {piece : List α} {pieces : List (List α)}
    (h : splitOnElement p xs = piece :: pieces) :
    splitOnElement p (x :: xs) = (x :: piece) :: pieces := by
  rw [splitOnElement, h, hx]
  rfl

/-- A run of elements that do not satisfy the predicate goes in front of the first piece. -/
lemma splitOnElement_append (hrun : ∀ x ∈ run, p x = false) {piece : List α}
    {pieces : List (List α)} (h : splitOnElement p xs = piece :: pieces) :
    splitOnElement p (run ++ xs) = (run ++ piece) :: pieces := by
  induction run with
  | nil => exact h
  | cons x run ih =>
    rw [List.forall_mem_cons] at hrun
    exact splitOnElement_cons_of_not hrun.1 (ih hrun.2)

/-- A list begins with a run of elements that are alike, up to one that is not. -/
lemma exists_run (p : α → Bool) (hne : xs ≠ []) : ∃ b run rest, xs = run ++ rest ∧ run ≠ [] ∧
    (∀ x ∈ run, p x = b) ∧ ∀ x ∈ rest.head?, p x = !b := by
  obtain ⟨x, xs, rfl⟩ := List.exists_cons_of_ne_nil hne
  refine ⟨p x, (x :: xs).takeWhile (fun y => p y == p x), (x :: xs).dropWhile fun y => p y == p x,
    List.takeWhile_append_dropWhile.symm, by simp, fun y hy => ?_, fun y hy => ?_⟩
  · simpa using List.mem_takeWhile_imp hy
  · have hhead := List.head?_dropWhile_not (fun y => p y == p x) (x :: xs)
    rw [Option.mem_def.mp hy] at hhead
    exact Bool.eq_not.mpr (by simpa using hhead)

lemma runs_append (hne : run ≠ []) {b : Bool} (hrun : ∀ x ∈ run, p x = b)
    (hxs : ∀ x ∈ xs.head?, p x = !b) :
    runs p (run ++ xs) = if b then run :: runs p xs else runs p xs := by
  have hlast : ∀ x ∈ run.getLast?, ∀ y ∈ xs.head?, (p x == p y) = false := fun x hx y hy => by
    rw [hrun x (List.mem_of_mem_getLast? hx), hxs y hy]
    cases b <;> rfl
  have hchain : run.IsChain fun x y => (p x == p y) = true :=
    (List.pairwise_of_forall_mem_list fun x hx y hy => by
      rw [hrun x hx, hrun y hy, beq_self_eq_true]).isChain
  have hall : run.all p = b := by
    cases b with
    | true => exact List.all_eq_true.mpr hrun
    | false =>
      obtain ⟨x, hx⟩ := List.exists_mem_of_ne_nil run hne
      exact List.all_eq_false.mpr ⟨x, hx, by simp [hrun x hx]⟩
  rw [runs, List.splitBy_append hlast, List.splitBy_of_isChain hne hchain, List.singleton_append,
    List.filter_cons, hall]
  rfl

/-- Separators in front leave no words. -/
lemma filter_splitOnElement_append (hrun : ∀ x ∈ run, p x = true) (xs : List α) :
    (splitOnElement p (run ++ xs)).filter (!·.isEmpty) =
      (splitOnElement p xs).filter (!·.isEmpty) := by
  induction run with
  | nil => rfl
  | cons x run ih =>
    rw [List.forall_mem_cons] at hrun
    rw [List.cons_append, splitOnElement_cons_of hrun.1, ← ih hrun.2]
    rfl

/-- A word in front is followed by the words behind the next separator. -/
lemma filter_splitOnElement_append_of_not (hne : run ≠ []) (hrun : ∀ x ∈ run, p x = false)
    (hxs : ∀ x ∈ xs.head?, p x = true) :
    (splitOnElement p (run ++ xs)).filter (!·.isEmpty) =
      run :: (splitOnElement p xs).filter (!·.isEmpty) := by
  obtain ⟨pieces, hpieces⟩ : ∃ pieces, splitOnElement p xs = [] :: pieces := by
    cases xs with
    | nil => exact ⟨[], rfl⟩
    | cons x xs => exact ⟨_, splitOnElement_cons_of (hxs x rfl) xs⟩
  rw [splitOnElement_append hrun hpieces, hpieces, List.append_nil,
    List.filter_cons_of_pos (by simpa using hne), List.filter_cons_of_neg (by simp)]

/-- **The pieces that are not empty are the runs** between the separators. -/
theorem filter_splitOnElement (p : α → Bool) (xs : List α) :
    (splitOnElement p xs).filter (!·.isEmpty) = runs (fun x => !p x) xs := by
  -- one run is taken off at a time, of separators or of others
  induction hlength : xs.length using Nat.strongRecOn generalizing xs with
  | ind n ih =>
    by_cases hxs : xs = []
    · subst hxs
      rfl
    · obtain ⟨b, run, rest, rfl, hne, hrun, hrest⟩ := exists_run p hxs
      have hlt : rest.length < n := by
        have := List.length_pos_iff.mpr hne
        rw [← hlength, List.length_append]
        omega
      have hrun' : ∀ x ∈ run, (!p x) = !b := fun x hx => by rw [hrun x hx]
      have hrest' : ∀ x ∈ rest.head?, (!p x) = !!b := fun x hx => by rw [hrest x hx]
      rw [runs_append hne hrun' hrest', ← ih _ hlt rest rfl]
      cases b with
      | true => exact filter_splitOnElement_append hrun rest
      | false => exact filter_splitOnElement_append_of_not hne hrun hrest

lemma splitOnElement_congr {q : α → Bool} (h : ∀ x ∈ xs, p x = q x) :
    splitOnElement p xs = splitOnElement q xs := by
  induction xs with
  | nil => rfl
  | cons x xs ih =>
    rw [List.forall_mem_cons] at h
    rw [splitOnElement, splitOnElement, ih h.2, h.1]

/-- There is no separator in a piece. -/
lemma forall_mem_splitOnElement (p : α → Bool) (xs : List α) :
    ∀ piece ∈ splitOnElement p xs, ∀ x ∈ piece, p x = false := by
  induction xs with
  | nil => simp [splitOnElement]
  | cons x xs ih =>
    cases hx : p x with
    | true =>
      rw [splitOnElement_cons_of hx]
      exact List.forall_mem_cons.mpr ⟨by simp, ih⟩
    | false =>
      obtain ⟨piece, pieces, h⟩ := List.exists_cons_of_ne_nil (splitOnElement_ne_nil p xs)
      rw [h, List.forall_mem_cons] at ih
      rw [splitOnElement_cons_of_not hx h]
      exact List.forall_mem_cons.mpr ⟨List.forall_mem_cons.mpr ⟨hx, ih.1⟩, ih.2⟩

/-- What is no separator stands in a piece. -/
lemma exists_mem_splitOnElement (hx : x ∈ xs) (hp : p x = false) :
    ∃ piece ∈ splitOnElement p xs, x ∈ piece := by
  induction xs with
  | nil => contradiction
  | cons y xs ih =>
    obtain ⟨first, pieces, h⟩ := List.exists_cons_of_ne_nil (splitOnElement_ne_nil p xs)
    cases hy : p y with
    | true =>
      have hne : x ≠ y := by
        rintro rfl
        simp [hp] at hy
      obtain ⟨piece, hpiece, hmem⟩ := ih ((List.mem_cons.mp hx).resolve_left hne)
      rw [splitOnElement_cons_of hy]
      exact ⟨piece, List.mem_cons_of_mem _ hpiece, hmem⟩
    | false =>
      rw [splitOnElement_cons_of_not hy h]
      rcases List.mem_cons.mp hx with rfl | hx
      · exact ⟨_, List.mem_cons_self .., List.mem_cons_self ..⟩
      · obtain ⟨piece, hpiece, hmem⟩ := ih hx
        rw [h] at hpiece
        rcases List.mem_cons.mp hpiece with rfl | hpiece
        · exact ⟨_, List.mem_cons_self .., List.mem_cons_of_mem _ hmem⟩
        · exact ⟨piece, List.mem_cons_of_mem _ hpiece, hmem⟩

/-- Blanks are neither letters nor numbers. -/
lemma isAlphanumeric_of_isBlank {c : Char} (h : isBlank c = true) : isAlphanumeric c = false := by
  have hcode : c.toNat ∈ List.range' 9 5 ++ List.range' 0x2000 11 ++
      [0x20, 0x85, 0xA0, 0x1680, 0x2028, 0x2029, 0x202F, 0x205F, 0x3000] := by
    simp only [isBlank, Bool.or_eq_true, Bool.and_eq_true, decide_eq_true_eq, beq_iff_eq] at h
    simp only [List.mem_append, List.mem_range'_1, List.mem_cons, List.not_mem_nil, or_false]
    omega
  have hblanks : ∀ n ∈ List.range' 9 5 ++ List.range' 0x2000 11 ++
      [0x20, 0x85, 0xA0, 0x1680, 0x2028, 0x2029, 0x202F, 0x205F, 0x3000],
      isAlphanumeric (Char.ofNat n) = false := by
    decide +kernel
  rw [← Char.ofNat_toNat c]
  exact hblanks _ hcode

end Text

namespace SearchMode

open Text

variable {ws vs : List (List Char)} {cs before after s t : List Char} {document query : String}

/-! ## Words one after the other -/

/-- The words of a text: the longest runs of letters and numbers in its lower case. -/
def wordsOf (s : String) : List (List Char) := runs isAlphanumeric (lowercase s).toList

/-- A text has nothing but letters, numbers and blanks. -/
def Spaced (s : String) : Prop := ∀ c ∈ (lowercase s).toList, isBlank c ∨ isAlphanumeric c

/-- A text is made of words with one separator between each two. -/
inductive Joined : List (List Char) → List Char → Prop
  | last (w : List Char) : Joined [w] w
  | cons (w : List Char) {c : Char} {ws : List (List Char)} {t : List Char}
      (hc : isAlphanumeric c = false) (h : Joined ws t) : Joined (w :: ws) (w ++ c :: t)

/-- Words stand in a text with one separator between each two, and no letter or number next to
them. -/
def StandsIn (ws : List (List Char)) (cs : List Char) : Prop :=
  ∃ before text after, cs = before ++ text ++ after ∧ Joined ws text ∧
    (∀ c ∈ before.getLast?, isAlphanumeric c = false) ∧
    ∀ c ∈ after.head?, isAlphanumeric c = false

lemma wordsOf_eq (s : String) :
    wordsOf s = (pieces (lowercase s).toList).filter (!·.isEmpty) := by
  rw [pieces, filter_splitOnElement, wordsOf]
  simp only [Bool.not_not]

lemma pieces_cons_of {c : Char} (hc : isAlphanumeric c = false) (cs : List Char) :
    pieces (c :: cs) = [] :: pieces cs :=
  splitOnElement_cons_of (by simp [hc]) cs

lemma pieces_append {w : List Char} (hw : ∀ c ∈ w, isAlphanumeric c) {piece : List Char}
    {rest : List (List Char)} (h : pieces cs = piece :: rest) :
    pieces (w ++ cs) = (w ++ piece) :: rest :=
  splitOnElement_append (fun c hc => by simp [hw c hc]) h

lemma isAlphanumeric_of_mem_pieces {w : List Char} (hw : w ∈ pieces cs) :
    ∀ c ∈ w, isAlphanumeric c := fun c hc => by
  simpa using forall_mem_splitOnElement _ cs w hw c hc

/-- A text is made of its pieces. -/
lemma joined_pieces (cs : List Char) : Joined (pieces cs) cs := by
  induction cs with
  | nil => exact .last []
  | cons c cs ih =>
    cases hc : isAlphanumeric c with
    | false =>
      rw [pieces_cons_of hc]
      exact .cons [] hc ih
    | true =>
      obtain ⟨piece, rest, h⟩ := List.exists_cons_of_ne_nil (splitOnElement_ne_nil _ cs)
      have hpieces : pieces (c :: cs) = (c :: piece) :: rest :=
        pieces_append (w := [c]) (by simpa using hc) h
      have ih : Joined (piece :: rest) cs := h ▸ ih
      rw [hpieces]
      cases ih with
      | last => exact .last _
      | cons _ hc' h' => exact .cons (c :: piece) hc' h'

/-- Words of letters and numbers are the pieces of what they make. -/
lemma Joined.pieces_eq (h : Joined ws cs) (hws : ∀ w ∈ ws, ∀ c ∈ w, isAlphanumeric c) :
    pieces cs = ws := by
  induction h with
  | last w =>
    have hnil : pieces [] = [[]] := rfl
    simpa using pieces_append (hws w (by simp)) hnil
  | cons w hc _ ih =>
    rw [List.forall_mem_cons] at hws
    rw [pieces_append hws.1 (pieces_cons_of hc _), List.append_nil, ih hws.2]

lemma Joined.append (h : Joined ws s) {c : Char} (hc : isAlphanumeric c = false)
    (h' : Joined vs t) : Joined (ws ++ vs) (s ++ c :: t) := by
  induction h with
  | last w => exact .cons w hc h'
  | cons w hd _ ih => simpa using Joined.cons w hd ih

lemma Joined.exists_append (h : Joined (ws ++ vs) cs) (hws : ws ≠ []) (hvs : vs ≠ []) :
    ∃ s c t, cs = s ++ c :: t ∧ isAlphanumeric c = false ∧ Joined ws s ∧ Joined vs t := by
  induction ws generalizing cs with
  | nil => contradiction
  | cons w ws ih =>
    rw [List.cons_append] at h
    by_cases hnil : ws = []
    · subst hnil
      cases h with
      | last => contradiction
      | cons _ hc h => exact ⟨w, _, _, rfl, hc, .last w, h⟩
    · generalize hall : ws ++ vs = all at h
      cases h with
      | last => simp [hnil] at hall
      | cons _ hd h =>
        subst hall
        obtain ⟨s, c, t, rfl, hc, hs, ht⟩ := ih h hnil
        exact ⟨w ++ _ :: s, c, t, by simp, hc, .cons w hd hs, ht⟩

/-- Words without those in front of them. -/
lemma Joined.without_front (h : Joined (vs ++ ws) cs) (hws : ws ≠ []) :
    ∃ before t, cs = before ++ t ∧ Joined ws t ∧
      ∀ c ∈ before.getLast?, isAlphanumeric c = false := by
  by_cases hvs : vs = []
  · subst hvs
    exact ⟨[], cs, rfl, h, by simp⟩
  · obtain ⟨s, c, t, rfl, hc, -, ht⟩ := h.exists_append hvs hws
    exact ⟨s ++ [c], t, by simp, ht, by simpa using hc⟩

/-- Words without those behind them. -/
lemma Joined.without_back (h : Joined (ws ++ vs) cs) (hws : ws ≠ []) :
    ∃ t after, cs = t ++ after ∧ Joined ws t ∧ ∀ c ∈ after.head?, isAlphanumeric c = false := by
  by_cases hvs : vs = []
  · subst hvs
    exact ⟨cs, [], by simp, by simpa using h, by simp⟩
  · obtain ⟨s, c, t, rfl, hc, hs, -⟩ := h.exists_append hws hvs
    exact ⟨s, c :: t, rfl, hs, by simpa using hc⟩

lemma Joined.with_front (h : Joined ws t)
    (hbefore : ∀ c ∈ before.getLast?, isAlphanumeric c = false) :
    ∃ vs, (∀ w ∈ vs, ∀ c ∈ w, isAlphanumeric c) ∧ Joined (vs ++ ws) (before ++ t) := by
  rcases List.eq_nil_or_concat before with rfl | ⟨front, c, rfl⟩
  · exact ⟨[], by simp, h⟩
  · have hc : isAlphanumeric c = false := hbefore c (by simp)
    refine ⟨pieces front, fun w => isAlphanumeric_of_mem_pieces, ?_⟩
    simpa using (joined_pieces front).append hc h

lemma Joined.with_back (h : Joined ws t) (hafter : ∀ c ∈ after.head?, isAlphanumeric c = false) :
    ∃ vs, (∀ w ∈ vs, ∀ c ∈ w, isAlphanumeric c) ∧ Joined (ws ++ vs) (t ++ after) := by
  cases after with
  | nil => exact ⟨[], by simp, by simpa using h⟩
  | cons c rest =>
    exact ⟨pieces rest, fun w => isAlphanumeric_of_mem_pieces,
      h.append (hafter c rfl) (joined_pieces rest)⟩

/-- **Words stand among the pieces of a text** where they stand in the text with one separator
between each two. -/
lemma infix_pieces_iff (hne : ws ≠ []) (hws : ∀ w ∈ ws, ∀ c ∈ w, isAlphanumeric c) :
    ws <:+: pieces cs ↔ StandsIn ws cs := by
  constructor
  · rintro ⟨front, back, h⟩
    have hjoined : Joined (front ++ (ws ++ back)) cs := by
      rw [← List.append_assoc, h]
      exact joined_pieces cs
    obtain ⟨before, t, rfl, ht, hbefore⟩ := hjoined.without_front (by simp [hne])
    obtain ⟨text, after, rfl, htext, hafter⟩ := ht.without_back hne
    exact ⟨before, text, after, by simp, htext, hbefore, hafter⟩
  · rintro ⟨before, text, after, rfl, htext, hbefore, hafter⟩
    obtain ⟨front, hfront, h⟩ := htext.with_front hbefore
    obtain ⟨back, hback, h⟩ := h.with_back hafter
    refine ⟨front, back, (h.pieces_eq fun w hw => ?_).symm⟩
    rcases List.mem_append.mp hw with hw | hw
    · rcases List.mem_append.mp hw with hw | hw
      · exact hfront w hw
      · exact hws w hw
    · exact hback w hw

/-! ## Phrases -/

lemma finds_phrase : phrase.finds document query ↔ words (lowercase query).toList ≠ [] ∧
    words (lowercase query).toList <:+: pieces (lowercase document).toList := by
  rw [← hasSegment_iff]
  show (!(words (lowercase query).toList).isEmpty && hasSegment (words (lowercase query).toList)
    (pieces (lowercase document).toList)) = true ↔ _
  rw [Bool.and_eq_true, Bool.not_eq_true', List.isEmpty_eq_false_iff]

/-- The terms of a query without other separators are its words. -/
lemma Spaced.words_eq (h : Spaced query) : words (lowercase query).toList = wordsOf query := by
  have hcongr : ∀ c ∈ (lowercase query).toList, isBlank c = !isAlphanumeric c := fun c hc => by
    cases hblank : isBlank c with
    | true => rw [isAlphanumeric_of_isBlank hblank, Bool.not_false]
    | false => rw [(h c hc).resolve_left (by simp [hblank]), Bool.not_true]
  rw [wordsOf_eq, words, pieces, splitOnElement_congr hcongr]

/-- Only queries without other separators find anything. -/
lemma spaced_of_finds (h : phrase.finds document query) : Spaced query := by
  intro c hc
  by_contra hnot
  rw [not_or, Bool.not_eq_true] at hnot
  obtain ⟨term, hterm, hmem⟩ := exists_mem_splitOnElement hc hnot.1
  have hwords : term ∈ words (lowercase query).toList :=
    List.mem_filter.mpr ⟨hterm, by simpa using List.ne_nil_of_mem hmem⟩
  have hpieces := (finds_phrase.mp h).2.subset hwords
  exact hnot.2 (isAlphanumeric_of_mem_pieces hpieces c hmem)

lemma isAlphanumeric_of_mem_wordsOf : ∀ w ∈ wordsOf query, ∀ c ∈ w, isAlphanumeric c := by
  rw [wordsOf_eq]
  exact fun w hw => isAlphanumeric_of_mem_pieces (List.mem_of_mem_filter hw)

/-- **When a phrase is found**: the query has nothing but words and blanks, and the words stand in
the document with one separator between each two. -/
lemma finds_phrase_iff : phrase.finds document query ↔
    wordsOf query ≠ [] ∧ Spaced query ∧ StandsIn (wordsOf query) (lowercase document).toList := by
  constructor
  · intro h
    have hspaced := spaced_of_finds h
    have hfinds := finds_phrase.mp h
    rw [hspaced.words_eq] at hfinds
    exact ⟨hfinds.1, hspaced, (infix_pieces_iff hfinds.1 isAlphanumeric_of_mem_wordsOf).mp hfinds.2⟩
  · rintro ⟨hne, hspaced, h⟩
    rw [finds_phrase, hspaced.words_eq]
    exact ⟨hne, (infix_pieces_iff hne isAlphanumeric_of_mem_wordsOf).mpr h⟩

/-- What is found are consecutive words. -/
lemma infix_wordsOf_of_finds (h : phrase.finds document query) :
    wordsOf query <:+: wordsOf document := by
  have hinfix := (finds_phrase.mp h).2
  rw [(spaced_of_finds h).words_eq] at hinfix
  have hwords := hinfix.filter (!·.isEmpty)
  rw [← wordsOf_eq, wordsOf_eq query, List.filter_filter] at hwords
  simpa only [Bool.and_self, ← wordsOf_eq] using hwords

/-- **How far a phrase search finds consecutive words.**  It finds a query if the query has words
and nothing but blanks between them, and the words stand in the document with one separator between
each two.  What it finds are consecutive words, so it goes wrong exactly where the words of the
query are consecutive words of the document, but something else than blanks stands between them in
the query or more than one character in the document. -/
theorem phrase_exact_iff (document query : String) :
    let consecutive := wordsOf query ≠ [] ∧ wordsOf query <:+: wordsOf document
    let plain := Spaced query ∧ StandsIn (wordsOf query) (lowercase document).toList
    (phrase.finds document query ↔ wordsOf query ≠ [] ∧ plain) ∧
      (phrase.finds document query → consecutive) ∧
      ((phrase.finds document query ↔ consecutive) ↔ (consecutive → plain)) := by
  intro consecutive plain
  have hsound : phrase.finds document query → consecutive := fun h =>
    ⟨(finds_phrase_iff.mp h).1, infix_wordsOf_of_finds h⟩
  refine ⟨finds_phrase_iff, hsound, fun h hconsecutive => ?_, fun h => ⟨hsound, fun h' => ?_⟩⟩
  · exact (finds_phrase_iff.mp (h.mpr hconsecutive)).2
  · exact finds_phrase_iff.mpr ⟨h'.1, h h'⟩

/-- A comma and a blank are two characters between two words. -/
theorem phrase_not_always_exact : ¬∀ document query : String, phrase.finds document query ↔
    wordsOf query ≠ [] ∧ wordsOf query <:+: wordsOf document := by
  intro h
  have hwords : wordsOf "quick brown" ≠ [] ∧
      wordsOf "quick brown" <:+: wordsOf "The quick, brown fox" := by
    decide +kernel
  have hfinds := (h "The quick, brown fox" "quick brown").mpr hwords
  revert hfinds
  decide +kernel

end SearchMode

end EntityFilter
