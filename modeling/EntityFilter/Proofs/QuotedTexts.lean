import EntityFilter.Literal.Printer
import EntityFilter.Proofs.ExpandedTexts
import EntityFilter.Proofs.SchemaTypes

/-!
# Texts between single quotes

A query is read from left to right: a single quote begins a text and the next one ends it, but two
quotes inside of a text stand for one (`Text.literals?`).  So what is written between quotes is read
as one text only if its own quotes come in pairs (`Text.QuotesPaired`).

A printed literal is words without quotes and texts between quotes (`Literal.insets`).  A text that
is printed with its quotes doubled always has them in pairs, and is read back
(`Inset.replace_written`).  A document is printed as it is, and then it depends on the document.
Whatever is written in this way is read as intended exactly if all texts in it have their quotes in
pairs (`Text.Writes.literals?_eq_some_iff`).
-/

namespace EntityFilter

namespace Text

variable {c : Char} {cs ds w : List Char} {ws vs : List (List Char)} {s t : String}

/-! ## Reading -/

/-- Where a reader is. -/
inductive Reading where
  /-- Between texts. -/
  | outside
  /-- In a text of which this much has been read. -/
  | inside (text : List Char)
  /-- Behind a quote in a text, which may be its end or the first of two. -/
  | behindQuote (text : List Char)

/-- The texts that are still to be read, as they are written; there must be an end to each. -/
def literalsFrom : Reading → List Char → Option (List (List Char))
  | .outside, [] => some []
  | .inside _, [] => none
  | .behindQuote text, [] => some [text]
  | .outside, c :: cs => if c = '\'' then literalsFrom (.inside []) cs else literalsFrom .outside cs
  | .inside text, c :: cs =>
    if c = '\'' then literalsFrom (.behindQuote text) cs
    else literalsFrom (.inside (text ++ [c])) cs
  | .behindQuote text, c :: cs =>
    if c = '\'' then literalsFrom (.inside (text ++ ['\'', '\''])) cs
    else (literalsFrom .outside cs).map (text :: ·)

/-- The texts between single quotes, as they are written. -/
def literals? (s : String) : Option (List (List Char)) := literalsFrom .outside s.toList

/-- Quotes come in pairs. -/
inductive QuotesPaired : List Char → Prop
  | nil : QuotesPaired []
  | char {c : Char} {cs : List Char} (hc : c ≠ '\'') (h : QuotesPaired cs) : QuotesPaired (c :: cs)
  | pair {cs : List Char} (h : QuotesPaired cs) : QuotesPaired ('\'' :: '\'' :: cs)

lemma QuotesPaired.append (hcs : QuotesPaired cs) (hds : QuotesPaired ds) :
    QuotesPaired (cs ++ ds) := by
  induction hcs with
  | nil => exact hds
  | char hc _ ih => exact .char hc ih
  | pair _ ih => exact .pair ih

lemma quotesPaired_of_notMem (h : '\'' ∉ cs) : QuotesPaired cs := by
  induction cs with
  | nil => exact .nil
  | cons c cs ih =>
    rw [List.mem_cons, not_or] at h
    exact .char (Ne.symm h.1) (ih h.2)

/-- A text with paired quotes is read to its end. -/
lemma literalsFrom_inside (h : QuotesPaired cs) (text rest : List Char) :
    literalsFrom (.inside text) (cs ++ rest) = literalsFrom (.inside (text ++ cs)) rest := by
  induction h generalizing text with
  | nil => rw [List.nil_append, List.append_nil]
  | char hc _ ih =>
    rw [List.cons_append, literalsFrom, if_neg hc, ih, List.append_assoc, List.singleton_append]
  | pair _ ih =>
    rw [List.cons_append, List.cons_append, literalsFrom, if_pos rfl, literalsFrom, if_pos rfl, ih,
      List.append_assoc]
    rfl

lemma literalsFrom_behindQuote (h : ds.head? ≠ some '\'') :
    literalsFrom (.behindQuote w) ds = (literalsFrom .outside ds).map (w :: ·) := by
  cases ds with
  | nil => rfl
  | cons c cs =>
    have hc : c ≠ '\'' := fun heq => h (congrArg some heq)
    rw [literalsFrom, if_neg hc, literalsFrom, if_neg hc]

/-- What has been read of a text. -/
def Reading.text : Reading → List Char
  | outside => []
  | inside text | behindQuote text => text

/-- Whatever is read has its quotes in pairs. -/
lemma quotesPaired_of_literalsFrom {state : Reading} (h : literalsFrom state cs = some ws)
    (hstate : QuotesPaired state.text) : ∀ w ∈ ws, QuotesPaired w := by
  induction cs generalizing state ws with
  | nil =>
    cases state with
    | outside => exact Option.some.inj h ▸ List.forall_mem_nil _
    | inside text => cases h
    | behindQuote text =>
      obtain rfl := Option.some.inj h
      exact List.forall_mem_singleton.mpr hstate
  | cons c cs ih =>
    cases state with
    | outside =>
      rw [literalsFrom] at h
      split at h
      · exact ih h .nil
      · exact ih h .nil
    | inside text =>
      rw [literalsFrom] at h
      split at h
      · exact ih h hstate
      · next hc => exact ih h (hstate.append (.char hc .nil))
    | behindQuote text =>
      rw [literalsFrom] at h
      split at h
      · exact ih h (hstate.append (.pair .nil))
      · obtain ⟨vs, hvs, rfl⟩ := Option.map_eq_some_iff.mp h
        exact List.forall_mem_cons.mpr ⟨hstate, ih hvs .nil⟩

/-! ## Writing -/

/-- Words without quotes, and texts between quotes.  What follows a text does not begin with a
quote. -/
inductive Writes : List Char → List (List Char) → Prop
  | nil : Writes [] []
  | plain {c : Char} {cs : List Char} {ws : List (List Char)} (hc : c ≠ '\'') (h : Writes cs ws) :
    Writes (c :: cs) ws
  | quoted (w : List Char) {cs : List Char} {ws : List (List Char)} (hnext : cs.head? ≠ some '\'')
    (h : Writes cs ws) : Writes ('\'' :: (w ++ '\'' :: cs)) (w :: ws)

/-- **Texts are read as they are written exactly if they have their quotes in pairs.** -/
theorem Writes.literals?_eq_some_iff (h : Writes cs ws) :
    literalsFrom .outside cs = some ws ↔ ∀ w ∈ ws, QuotesPaired w := by
  refine ⟨fun hread => quotesPaired_of_literalsFrom hread .nil, fun hpaired => ?_⟩
  induction h with
  | nil => rfl
  | plain hc _ ih => rw [literalsFrom, if_neg hc, ih hpaired]
  | quoted w hnext _ ih =>
    rw [List.forall_mem_cons] at hpaired
    rw [literalsFrom, if_pos rfl, literalsFrom_inside hpaired.1, List.nil_append, literalsFrom,
      if_pos rfl, literalsFrom_behindQuote hnext, ih hpaired.2]
    rfl

lemma Writes.append (h : Writes cs ws) (h' : Writes ds vs) (hnext : ds.head? ≠ some '\'') :
    Writes (cs ++ ds) (ws ++ vs) := by
  induction h with
  | nil => exact h'
  | plain hc _ ih => exact .plain hc ih
  | @quoted w cs ws hcs _ ih =>
    rw [List.cons_append, List.append_assoc, List.cons_append]
    refine .quoted w ?_ ih
    cases cs with
    | nil => exact hnext
    | cons c cs => exact hcs

lemma Writes.behind (h : Writes ds ws) (hcs : '\'' ∉ cs) : Writes (cs ++ ds) ws := by
  induction cs with
  | nil => exact h
  | cons c cs ih =>
    rw [List.mem_cons, not_or] at hcs
    exact .plain (Ne.symm hcs.1) (ih hcs.2)

lemma head?_ne_of_notMem (h : '\'' ∉ cs) : cs.head? ≠ some '\'' :=
  fun hhead => h (List.mem_of_mem_head? hhead)

/-! ## Texts without quotes -/

/-- There is no single quote in a text. -/
def Unquoted (s : String) : Prop := '\'' ∉ s.toList

instance (s : String) : Decidable (Unquoted s) := inferInstanceAs (Decidable ('\'' ∉ s.toList))

@[simp] lemma unquoted_append : Unquoted (s ++ t) ↔ Unquoted s ∧ Unquoted t := by
  rw [Unquoted, String.toList_append, List.mem_append, not_or]
  rfl

lemma unquoted_of_isDigit (h : ∀ c ∈ s.toList, c.isDigit) : Unquoted s :=
  fun hmem => absurd (h _ hmem) (by decide)

lemma unquoted_concat {texts : List String} (h : ∀ t ∈ texts, Unquoted t) :
    Unquoted (String.join texts) := by
  rw [Unquoted, String.toList_join, List.mem_flatMap]
  rintro ⟨t, ht, hmem⟩
  exact h t ht hmem

lemma unquoted_join {separator : String} {texts : List String} (hseparator : Unquoted separator)
    (h : ∀ t ∈ texts, Unquoted t) : Unquoted (join separator texts) := by
  induction texts with
  | nil => exact List.not_mem_nil
  | cons t texts ih =>
    obtain ⟨ht, htexts⟩ := List.forall_mem_cons.mp h
    by_cases hnil : texts = []
    · subst hnil
      exact ht
    · have hjoin : join separator (t :: texts) = t ++ separator ++ join separator texts :=
        String.intercalate_cons_of_ne_nil hnil
      rw [hjoin, unquoted_append, unquoted_append]
      exact ⟨⟨ht, hseparator⟩, ih htexts⟩

lemma unquoted_nat (n : Nat) : Unquoted (toString n) := unquoted_of_isDigit isDigit_of_mem_toString

lemma unquoted_int (i : Int) : Unquoted (toString i) := by
  cases i with
  | ofNat n => exact unquoted_nat n
  | negSucc n => exact unquoted_append.mpr ⟨by decide, unquoted_nat (n + 1)⟩

end Text

open Text

/-! ## Numbers and dates -/

namespace Layout

lemma unquoted_digitText (ds : List Nat) : Unquoted (digitText ds) := by
  refine unquoted_concat fun t ht => ?_
  obtain ⟨n, -, rfl⟩ := List.mem_map.mp ht
  exact unquoted_nat n

lemma unquoted_plain (d : ShortDecimal) : Unquoted (plain d) := by
  unfold plain
  dsimp only
  split
  · exact unquoted_append.mpr ⟨by decide, unquoted_digitText _⟩
  · rw [unquoted_append, unquoted_append]
    refine ⟨⟨unquoted_digitText _, by decide⟩, ?_⟩
    split
    · decide
    · exact unquoted_digitText _

lemma unquoted_withExponent (signed : Bool) (d : ShortDecimal) :
    Unquoted (withExponent signed d) := by
  unfold withExponent
  dsimp only
  rw [unquoted_append, unquoted_append, unquoted_append]
  refine ⟨⟨⟨?_, by decide⟩, ?_⟩, unquoted_int _⟩
  · split
    · exact unquoted_digitText _
    · rw [unquoted_append, unquoted_append]
      exact ⟨⟨unquoted_digitText _, by decide⟩, unquoted_digitText _⟩
  · split <;> decide

/-- A number is written without quotes. -/
lemma unquoted_render (l : Layout) (x : Float) : Unquoted (l.render x) := by
  have hsign : Unquoted (if (Binary64.parts x).negative then "-" else "") := by
    split <;> decide
  unfold render
  dsimp only
  split
  · exact unquoted_append.mpr ⟨hsign, by decide⟩
  · refine unquoted_append.mpr ⟨hsign, ?_⟩
    split
    · exact unquoted_plain _
    · exact unquoted_withExponent _ _

end Layout

lemma Date.unquoted_padded (width n : Nat) : Unquoted (padded width n) := by
  unfold padded
  dsimp only
  rw [unquoted_append]
  refine ⟨fun hmem => ?_, unquoted_nat n⟩
  rw [String.toList_ofList] at hmem
  exact absurd (List.eq_of_mem_replicate hmem) (by decide)

lemma Date.unquoted_render (d : Date) : Unquoted d.render := by
  have hyear : Unquoted (yearText d.year) := by
    unfold yearText
    split
    · exact unquoted_padded 4 _
    · refine unquoted_append.mpr ⟨?_, unquoted_padded 4 _⟩
      split <;> decide
  unfold render
  simp only [unquoted_append, hyear, unquoted_padded, true_and, and_true]
  decide

lemma Instant.unquoted_render (t : Instant) : Unquoted t.render := by
  have hfraction : ∀ n, Unquoted (fractionText n) := by
    intro n
    unfold fractionText
    split_ifs
    · decide
    all_goals exact unquoted_append.mpr ⟨by decide, Date.unquoted_padded _ _⟩
  unfold render
  dsimp only
  simp only [unquoted_append, Date.unquoted_render, Date.unquoted_padded, hfraction, true_and,
    and_true]
  decide

/-! ## What stands between quotes -/

/-- A text that is set off by quotes. -/
inductive Inset where
  /-- A text with every quote doubled. -/
  | doubled (text : String)
  /-- A text as it is. -/
  | raw (text : String)
  /-- A text without quotes. -/
  | fixed (text : String) (h : Unquoted text)

/-- The text that is meant. -/
def Inset.text : Inset → String
  | doubled text | raw text | fixed text _ => text

/-- What is written between the quotes. -/
def Inset.written : Inset → String
  | doubled text => Text.replace text "'" "''"
  | raw text | fixed text _ => text

/-- A text of words without quotes, in which these texts are set off by quotes. -/
def Text.SetsOff (s : String) (insets : List Inset) : Prop :=
  Writes s.toList (insets.map fun i => i.written.toList)

/-! ### Doubled quotes -/

section

variable {c : Char} {cs : List Char}

/-- The characters of a text with every quote doubled. -/
def doubledChars (cs : List Char) : List Char :=
  cs.flatMap fun c => if c = '\'' then ['\'', '\''] else [c]

lemma replaceFrom_quote (cs : List Char) :
    replaceFrom ['\''] ['\'', '\''] 0 cs = doubledChars cs := by
  induction cs with
  | nil => rfl
  | cons c cs ih =>
    rw [doubledChars, List.flatMap_cons, ← doubledChars, ← ih]
    by_cases hc : c = '\''
    · subst hc
      exact replaceFrom_segment (List.cons_ne_nil '\'' []) ['\'', '\''] cs
    · rw [if_neg hc]
      refine replaceFrom_cons (fun hprefix => hc ?_) _
      exact (List.cons_prefix_cons.mp hprefix).1.symm

lemma quotesPaired_doubledChars (cs : List Char) : QuotesPaired (doubledChars cs) := by
  induction cs with
  | nil => exact .nil
  | cons c cs ih =>
    rw [doubledChars, List.flatMap_cons, ← doubledChars]
    split
    · exact .pair ih
    · next hc => exact .char hc ih

lemma replaceFrom_doubledChars (cs : List Char) :
    replaceFrom ['\'', '\''] ['\''] 0 (doubledChars cs) = cs := by
  induction cs with
  | nil => rfl
  | cons c cs ih =>
    rw [doubledChars, List.flatMap_cons, ← doubledChars]
    split
    · next hc =>
      subst hc
      rw [replaceFrom_segment (by simp), ih]
      rfl
    · next hc =>
      rw [List.singleton_append, replaceFrom_cons fun hprefix => hc
        (List.cons_prefix_cons.mp hprefix).1.symm, ih]

lemma doubledChars_of_notMem (h : '\'' ∉ cs) : doubledChars cs = cs := by
  induction cs with
  | nil => rfl
  | cons c cs ih =>
    rw [List.mem_cons, not_or] at h
    rw [doubledChars, List.flatMap_cons, ← doubledChars, if_neg (Ne.symm h.1), ih h.2,
      List.singleton_append]

end

namespace Inset

variable {i : Inset}

/-- What is not written as it is has its quotes doubled, if there are any. -/
lemma toList_written (h : ∀ s, i ≠ .raw s) : i.written.toList = doubledChars i.text.toList := by
  cases i with
  | doubled s =>
    rw [written, Text.replace, String.toList_ofList]
    exact replaceFrom_quote s.toList
  | raw s => exact absurd rfl (h s)
  | fixed s hs => exact (doubledChars_of_notMem hs).symm

/-- Quotes come in pairs wherever they do so in the texts that are written as they are. -/
lemma quotesPaired_written (h : ∀ s, i = .raw s → QuotesPaired s.toList) :
    QuotesPaired i.written.toList := by
  by_cases hraw : ∃ s, i = .raw s
  · obtain ⟨s, rfl⟩ := hraw
    exact h s rfl
  · rw [toList_written fun s hs => hraw ⟨s, hs⟩]
    exact quotesPaired_doubledChars i.text.toList

/-- **With two quotes for one, a text is read as it was meant**, unless it is written as it is. -/
theorem replace_written (h : ∀ s, i ≠ .raw s) : Text.replace i.written "''" "'" = i.text := by
  rw [Text.replace, toList_written h]
  exact (congrArg String.ofList (replaceFrom_doubledChars i.text.toList)).trans String.ofList_toList

end Inset

namespace Text

variable {s t : String} {insets : List Inset}

/-! ### Putting texts together -/

lemma setsOff_of_unquoted (h : Unquoted s) : SetsOff s [] := by
  rw [SetsOff, ← List.append_nil s.toList]
  exact Writes.nil.behind h

lemma setsOff_inset (i : Inset) : SetsOff ("'" ++ i.written ++ "'") [i] := by
  have h : Writes ('\'' :: (i.written.toList ++ ['\''])) [i.written.toList] :=
    .quoted i.written.toList (by simp) .nil
  rw [SetsOff, String.toList_append, String.toList_append]
  exact h

/-- Words in front of a text. -/
lemma SetsOff.behind (h : SetsOff t insets) (hs : Unquoted s) : SetsOff (s ++ t) insets := by
  rw [SetsOff, String.toList_append]
  exact Writes.behind h hs

/-- Two texts with words between them. -/
lemma SetsOff.between {insets' : List Inset} {separator : String} (h : SetsOff s insets)
    (h' : SetsOff t insets') (hseparator : Unquoted separator) (hne : separator ≠ "") :
    SetsOff (s ++ (separator ++ t)) (insets ++ insets') := by
  have hrest := h'.behind hseparator
  rw [SetsOff, String.toList_append, List.map_append]
  refine Writes.append h hrest ?_
  obtain ⟨c, cs, hcs⟩ := List.exists_cons_of_ne_nil
    (fun hnil => hne (String.toList_eq_nil_iff.mp hnil))
  rw [String.toList_append, hcs]
  exact fun hhead => hseparator (hcs ▸ List.mem_of_mem_head? hhead)

/-- Words behind a text. -/
lemma SetsOff.before (h : SetsOff s insets) (ht : Unquoted t) : SetsOff (s ++ t) insets := by
  have happend := Writes.append h (setsOff_of_unquoted ht) (head?_ne_of_notMem ht)
  rw [SetsOff, String.toList_append]
  rwa [List.map_nil, List.append_nil] at happend

/-- Texts with words between them. -/
lemma setsOff_join {α : Type} {write : α → String} {insets : α → List Inset} {separator : String}
    (hseparator : Unquoted separator) (hne : separator ≠ "") : ∀ {xs : List α},
    (∀ x ∈ xs, SetsOff (write x) (insets x)) →
      SetsOff (join separator (xs.map write)) (xs.flatMap insets)
  | [], _ => .nil
  | [x], h => by
    rw [List.flatMap_singleton]
    exact h x (List.mem_singleton.mpr rfl)
  | x :: y :: xs, h => by
    obtain ⟨hx, hxs⟩ := List.forall_mem_cons.mp h
    have hjoin : join separator (write x :: (y :: xs).map write) =
        write x ++ (separator ++ join separator ((y :: xs).map write)) := by
      rw [← String.append_assoc]
      exact String.intercalate_cons_of_ne_nil (List.cons_ne_nil _ _)
    rw [List.map_cons, hjoin, List.flatMap_cons]
    exact hx.between (setsOff_join hseparator hne hxs) hseparator hne

end Text

/-! ## Printed literals -/

namespace Literal

mutual

/-- The texts that stand between quotes in a literal, in order. -/
def insets : Literal → List Inset
  | text s => [.doubled s]
  | date d => [.fixed d.render d.unquoted_render]
  | instant t => [.fixed t.render t.unquoted_render]
  | list items => insetsOfAll items
  | document d => [.raw d.print]
  | _ => []

/-- The texts that stand between quotes in literals. -/
def insetsOfAll : List Literal → List Inset
  | [] => []
  | v :: vs => insets v ++ insetsOfAll vs

end

lemma insetsOfAll_eq_flatMap (vs : List Literal) : insetsOfAll vs = vs.flatMap insets := by
  induction vs with
  | nil => rfl
  | cons v vs ih => rw [insetsOfAll, ih, List.flatMap_cons]

lemma renderAll_eq_map (vs : List Literal) : renderAll vs = vs.map render := by
  induction vs with
  | nil => rfl
  | cons v vs ih => rw [renderAll, ih, List.map_cons]

mutual

/-- **A printed literal sets its texts off by quotes.** -/
theorem setsOff_render : ∀ v : Literal, SetsOff v.render v.insets
  | null => setsOff_of_unquoted (by decide)
  | bool b => setsOff_of_unquoted (by cases b <;> decide)
  | int i => setsOff_of_unquoted (unquoted_int i)
  | float x => setsOff_of_unquoted (numberLayout.unquoted_render x)
  | text s => setsOff_inset (.doubled s)
  | date d => by
    have h := (setsOff_inset (.fixed d.render d.unquoted_render)).behind (s := "DATE ") (by decide)
    rwa [← String.append_assoc, ← String.append_assoc] at h
  | instant t => by
    have h := (setsOff_inset (.fixed t.render t.unquoted_render)).behind (s := "TIMESTAMP ")
      (by decide)
    rwa [← String.append_assoc, ← String.append_assoc] at h
  | document d => setsOff_inset (.raw d.print)
  | list items => by
    have hitems : SetsOff (Text.join ", " (items.map render)) (items.flatMap insets) :=
      setsOff_join (by decide) (by decide) (setsOff_render_of_mem items)
    rw [render, renderAll_eq_map, insets, insetsOfAll_eq_flatMap]
    exact (hitems.behind (by decide)).before (by decide)

theorem setsOff_render_of_mem : ∀ vs : List Literal, ∀ v ∈ vs, SetsOff v.render v.insets
  | [], _, hv => absurd hv List.not_mem_nil
  | v :: vs, x, hx => (List.mem_cons.mp hx).elim (fun h => h ▸ setsOff_render v)
      (setsOff_render_of_mem vs x)

end

end Literal

end EntityFilter
