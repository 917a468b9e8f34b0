import EntityFilter.Environment
import Mathlib.Data.List.Infix
import Mathlib.Data.List.TakeWhile

/-!
# Expanding references

A text is read as parts: its references, from the left and without overlap, and the characters
between them (`Environment.Reads`).  What one expects of an expansion is that each reference is
replaced by its value, all at once (`Environment.substitute`).  The expansion replaces one name
after the other instead, wherever a reference to it is found by then.

One replacement does what it should if the references to the name are still those of the text
(`Environment.Undisturbed`): none has come with a value or grown together at the edge of one, and
none is the end of another reference.  `Environment.Reads.replaceFrom_render` is this step, an
induction on the parts, and `Environment.Separate.expand_eq` the run through all names.  Values,
names and surroundings without dollar signs are harmless.  On the other hand any two references of a
text can be made to go wrong: when the first one is replaced by many references to the second name,
the next step replaces all of them, and the text grows longer than a substitution could make it.
So `Environment.expand_exact` says of each text whether its values matter.
-/

namespace EntityFilter

namespace Text

variable {α : Type} [DecidableEq α] {segment value xs ys : List α} {x : α}

/-! ## Replacing a segment -/

lemma replaceFrom_eq_drop (segment value : List α) (skip : Nat) (xs : List α) :
    replaceFrom segment value skip xs = replaceFrom segment value 0 (xs.drop skip) := by
  induction xs generalizing skip with
  | nil => simp [replaceFrom]
  | cons x xs ih =>
    cases skip with
    | zero => rfl
    | succ skip => rw [replaceFrom, ih, List.drop_succ_cons]

lemma replaceFrom_segment (hne : segment ≠ []) (value ys : List α) :
    replaceFrom segment value 0 (segment ++ ys) = value ++ replaceFrom segment value 0 ys := by
  obtain ⟨x, rest, rfl⟩ := List.exists_cons_of_ne_nil hne
  have hprefix : (x :: rest).isPrefixOf (x :: (rest ++ ys)) = true :=
    List.isPrefixOf_iff_prefix.mpr (List.prefix_append (x :: rest) ys)
  rw [List.cons_append, replaceFrom, if_pos hprefix, replaceFrom_eq_drop]
  simp

lemma replaceFrom_cons (h : ¬segment <+: x :: xs) (value : List α) :
    replaceFrom segment value 0 (x :: xs) = x :: replaceFrom segment value 0 xs := by
  rw [replaceFrom, if_neg (by rwa [List.isPrefixOf_iff_prefix])]

/-- Where no occurrence begins, nothing is replaced. -/
lemma replaceFrom_append (h : ∀ t, t <:+ xs → t ≠ [] → ¬segment <+: t ++ ys) (value : List α) :
    replaceFrom segment value 0 (xs ++ ys) = xs ++ replaceFrom segment value 0 ys := by
  induction xs with
  | nil => rfl
  | cons x xs ih =>
    have hx := h (x :: xs) List.suffix_rfl (by simp)
    have hxs := ih fun t ht => h t (ht.trans (List.suffix_cons x xs))
    rw [List.cons_append] at hx ⊢
    rw [replaceFrom_cons hx, hxs, List.cons_append]

omit [DecidableEq α] in
/-- Up to an element that stands in neither of them, two lists are the same. -/
lemma eq_of_append_prefix {z : α} (hx : z ∉ xs) (hy : z ∉ ys) {rest : List α}
    (h : xs ++ [z] <+: ys ++ z :: rest) : xs = ys := by
  induction xs generalizing ys with
  | nil =>
    cases ys with
    | nil => rfl
    | cons y ys => simp_all
  | cons x xs ih =>
    cases ys with
    | nil => simp_all
    | cons y ys =>
      rw [List.cons_append, List.cons_append, List.cons_prefix_cons] at h
      rw [List.mem_cons, not_or] at hx hy
      rw [h.1, ih hx.2 hy.2 h.2]

end Text

namespace Environment

open Text

variable {env : Environment} {s name value : String} {cs : List Char}

/-! ## Texts and their references -/

/-- A name is not empty and has no closing brace. -/
def IsName (name : String) : Prop := name.toList ≠ [] ∧ '}' ∉ name.toList

lemma toList_reference (name : String) :
    (reference name).toList = '$' :: '{' :: (name.toList ++ ['}']) := by
  simp [reference]

lemma reference_eq_concat (name : String) :
    (reference name).toList = '$' :: '{' :: name.toList ++ ['}'] := by
  simp [toList_reference]

/-- A part of a text. -/
inductive Part where
  | character (c : Char)
  | reference (name : String)
  deriving DecidableEq

/-- The parts of a text; `skip` characters still belong to the last reference found. -/
def partsFrom : Nat → List Char → List Part
  | _, [] => []
  | skip + 1, _ :: cs => partsFrom skip cs
  | 0, c :: cs =>
    match nameInFront? (c :: cs) with
    | some name => .reference (String.ofList name) :: partsFrom (name.length + 2) cs
    | none => .character c :: partsFrom 0 cs

/-- The parts of a text: its references, from the left and without overlap, and the characters
between them. -/
def parts (s : String) : List Part := partsFrom 0 s.toList

/-- Characters are read as parts: a reference is one part wherever it begins behind the last one. -/
inductive Reads : List Char → List Part → Prop
  | nil : Reads [] []
  | reference {name : String} {cs : List Char} {ps : List Part} (hname : IsName name)
      (h : Reads cs ps) : Reads ((reference name).toList ++ cs) (.reference name :: ps)
  | character {c : Char} {cs : List Char} {ps : List Part}
      (hc : ∀ name, IsName name → ¬(Environment.reference name).toList <+: c :: cs)
      (h : Reads cs ps) : Reads (c :: cs) (.character c :: ps)

lemma isName_ofList {name : List Char} :
    IsName (String.ofList name) ↔ name ≠ [] ∧ '}' ∉ name := by
  rw [IsName, String.toList_ofList]

lemma nameInFront?_of_brace {name : List Char} (h : '}' ∉ name) (rest : List Char) :
    nameInFront? ('$' :: '{' :: (name ++ '}' :: rest)) = if name = [] then none else some name := by
  have htake : (name ++ '}' :: rest).takeWhile (· ≠ '}') = name := by
    rw [List.takeWhile_append_of_pos fun c hc => decide_eq_true (ne_of_mem_of_not_mem hc h)]
    simp
  have hlength : (name.length = (name ++ '}' :: rest).length) = False := by simp
  show (if ((name ++ '}' :: rest).takeWhile (· ≠ '}')).isEmpty ||
    ((name ++ '}' :: rest).takeWhile (· ≠ '}')).length = (name ++ '}' :: rest).length then none
    else some ((name ++ '}' :: rest).takeWhile (· ≠ '}'))) = _
  simp only [htake, hlength, decide_false, Bool.or_false, List.isEmpty_iff]

lemma nameInFront?_of_not_mem (h : '}' ∉ cs) : nameInFront? ('$' :: '{' :: cs) = none := by
  have htake : cs.takeWhile (· ≠ '}') = cs :=
    List.takeWhile_eq_self_iff.mpr fun c hc => decide_eq_true (ne_of_mem_of_not_mem hc h)
  show (if (cs.takeWhile (· ≠ '}')).isEmpty || (cs.takeWhile (· ≠ '}')).length = cs.length then none
    else some (cs.takeWhile (· ≠ '}'))) = none
  rw [htake, decide_eq_true rfl, Bool.or_true, if_pos rfl]

lemma nameInFront?_eq_some_iff {name : List Char} : nameInFront? cs = some name ↔
    IsName (String.ofList name) ∧ (reference (String.ofList name)).toList <+: cs := by
  rw [isName_ofList, toList_reference, String.toList_ofList]
  constructor
  · intro h
    obtain ⟨cs, rfl⟩ : ∃ cs', cs = '$' :: '{' :: cs' := by
      unfold nameInFront? at h
      split at h
      · exact ⟨_, rfl⟩
      · contradiction
    by_cases hbrace : '}' ∈ cs
    · obtain ⟨name', rest, rfl, hname'⟩ := List.eq_append_cons_of_mem hbrace
      rw [nameInFront?_of_brace hname'] at h
      split at h
      · contradiction
      · next hne =>
        obtain rfl := Option.some.inj h
        exact ⟨⟨hne, hname'⟩, rest, by simp⟩
    · rw [nameInFront?_of_not_mem hbrace] at h
      contradiction
  · rintro ⟨⟨hne, hbrace⟩, rest, rfl⟩
    have hname := nameInFront?_of_brace hbrace rest
    rw [if_neg hne] at hname
    simpa using hname

lemma nameInFront?_eq_none_iff : nameInFront? cs = none ↔
    ∀ name, IsName name → ¬(reference name).toList <+: cs := by
  constructor
  · intro h name hname hprefix
    rw [← String.ofList_toList (s := name)] at hname hprefix
    have hsome := nameInFront?_eq_some_iff.mpr ⟨hname, hprefix⟩
    rw [h] at hsome
    contradiction
  · intro h
    cases hname : nameInFront? cs with
    | none => rfl
    | some name =>
      obtain ⟨hname, hprefix⟩ := nameInFront?_eq_some_iff.mp hname
      exact absurd hprefix (h _ hname)

lemma partsFrom_eq_drop (skip : Nat) (cs : List Char) :
    partsFrom skip cs = partsFrom 0 (cs.drop skip) := by
  induction cs generalizing skip with
  | nil => simp [partsFrom]
  | cons c cs ih =>
    cases skip with
    | zero => rfl
    | succ skip => rw [partsFrom, ih, List.drop_succ_cons]

/-- **The parts of a text** are read off it. -/
lemma reads_partsFrom (cs : List Char) : Reads cs (partsFrom 0 cs) := by
  induction hlength : cs.length using Nat.strongRecOn generalizing cs with
  | ind n ih =>
    cases cs with
    | nil => exact .nil
    | cons c cs =>
      rw [partsFrom]
      cases hname : nameInFront? (c :: cs) with
      | none =>
        exact .character (nameInFront?_eq_none_iff.mp hname) (ih _ (by simp [← hlength]) cs rfl)
      | some name =>
        obtain ⟨hname, rest, hrest⟩ := nameInFront?_eq_some_iff.mp hname
        have hcs : cs.drop (name.length + 2) = rest := by
          rw [toList_reference, String.toList_ofList, List.cons_append] at hrest
          obtain ⟨-, rfl⟩ := List.cons_eq_cons.mp hrest
          simp
        have hlt : rest.length < n := by
          rw [← hlength, ← hrest, toList_reference]
          simp only [List.length_append, List.length_cons]
          omega
        simp only [← hrest]
        rw [partsFrom_eq_drop, hcs]
        exact .reference hname (ih _ hlt rest rfl)

lemma reads_parts (s : String) : Reads s.toList (parts s) := reads_partsFrom s.toList

/-- The name that a part refers to. -/
def Part.name? : Part → Option String
  | character _ => none
  | reference name => some name

lemma map_namesFrom (skip : Nat) (cs : List Char) :
    (namesFrom skip cs).map String.ofList = (partsFrom skip cs).filterMap Part.name? := by
  induction cs generalizing skip with
  | nil => simp [namesFrom, partsFrom]
  | cons c cs ih =>
    cases skip with
    | succ skip => rw [namesFrom, partsFrom, ih]
    | zero =>
      rw [namesFrom, partsFrom]
      cases nameInFront? (c :: cs) with
      | none => rw [ih, List.filterMap_cons_none rfl]
      | some name =>
        rw [List.map_cons, ih]
        rfl

lemma names_eq (s : String) : names s = (parts s).filterMap Part.name? :=
  map_namesFrom 0 s.toList

lemma mem_names_iff : name ∈ names s ↔ .reference name ∈ parts s := by
  rw [names_eq, List.mem_filterMap]
  constructor
  · rintro ⟨part, hpart, hname⟩
    cases part with
    | character c => contradiction
    | reference name' => rwa [← Option.some.inj hname]
  · exact fun h => ⟨_, h, rfl⟩

/-! ## Simultaneous substitution -/

/-- What stands for a part: a reference is replaced by its value, if it has one. -/
def Part.render (env : Environment) : Part → List Char
  | character c => [c]
  | reference name => ((env name).getD (Environment.reference name)).toList

/-- What stands for parts. -/
def render (env : Environment) (ps : List Part) : List Char := ps.flatMap (Part.render env)

/-- Replace each reference of a text by its value, all at once. -/
def substitute (env : Environment) (s : String) : String := String.ofList (render env (parts s))

variable {env' : Environment} {ps : List Part} {p : Part} {c : Char}

lemma render_cons (env : Environment) (p : Part) (ps : List Part) :
    render env (p :: ps) = p.render env ++ render env ps := List.flatMap_cons

lemma render_congr (h : ∀ name, .reference name ∈ ps → env name = env' name) :
    render env ps = render env' ps := by
  refine List.flatMap_congr fun p hp => ?_
  cases p with
  | character => rfl
  | reference name => rw [Part.render, Part.render, h name hp]

/-- Without values a text stays as it is. -/
lemma Reads.render_eq (h : Reads cs ps) (henv : ∀ name, .reference name ∈ ps → env name = none) :
    render env ps = cs := by
  induction h with
  | nil => rfl
  | @reference name cs ps _ _ ih =>
    rw [render_cons, ih fun name hname => henv name (List.mem_cons_of_mem _ hname), Part.render,
      henv name List.mem_cons_self, Option.getD_none]
  | character _ _ ih =>
    rw [render_cons, ih fun name hname => henv name (List.mem_cons_of_mem _ hname)]
    rfl

/-- What is read as a reference is one, and stands in the text. -/
lemma Reads.isName_infix_of_mem (h : Reads cs ps) (hname : .reference name ∈ ps) :
    IsName name ∧ (Environment.reference name).toList <:+: cs := by
  induction h with
  | nil => contradiction
  | reference hname' _ ih =>
    rcases List.mem_cons.mp hname with h | h
    · obtain rfl := Part.reference.inj h
      exact ⟨hname', (List.prefix_append _ _).isInfix⟩
    · exact ⟨(ih h).1, (ih h).2.trans (List.suffix_append _ _).isInfix⟩
  | @character c cs ps _ _ ih =>
    have hrest := ih ((List.mem_cons.mp hname).resolve_left (by simp))
    exact ⟨hrest.1, hrest.2.trans (List.suffix_cons c cs).isInfix⟩

lemma Reads.brace_mem (h : Reads cs ps) (hname : .reference name ∈ ps) : '}' ∈ cs :=
  (h.isName_infix_of_mem hname).2.subset (by simp [toList_reference])

/-- The references to a name stay apart from the values that have been put in, and from other
references. -/
structure Undisturbed (env : Environment) (ps : List Part) (name : String) : Prop where
  /-- No value contains a reference to the name or ends with the beginning of one. -/
  values : ∀ other, .reference other ∈ ps → ∀ value, env other = some value →
    ∀ t, t <:+ value.toList → t ≠ [] →
      ¬(reference name).toList <+: t ∧ ¬t <+: (reference name).toList
  /-- No value completes a reference that a dollar sign begins. -/
  dollars : ∀ other, [.character '$', .reference other] <:+: ps → ∀ value, env other = some value →
    ∃ c cs, value.toList = c :: cs ∧ c ≠ '{'
  /-- No other name ends with a reference to the name. -/
  names : ∀ other, .reference other ∈ ps → ¬ '$' :: '{' :: name.toList <:+ other.toList

lemma Undisturbed.tail (h : Undisturbed env (p :: ps) name) : Undisturbed env ps name :=
  ⟨fun other hother => h.values other (List.mem_cons_of_mem _ hother),
    fun other hother => h.dollars other (hother.trans (List.suffix_cons p ps).isInfix),
    fun other hother => h.names other (List.mem_cons_of_mem _ hother)⟩

/-- No reference begins at a character. -/
lemma Reads.not_prefix_character
    (hc : ∀ name, IsName name → ¬(Environment.reference name).toList <+: c :: cs)
    (h : Reads cs ps) (hname : IsName name) (hclear : Undisturbed env (.character c :: ps) name) :
    ¬(Environment.reference name).toList <+: c :: render env ps := by
  intro hprefix
  rw [toList_reference, List.cons_prefix_cons] at hprefix
  obtain ⟨rfl, hprefix⟩ := hprefix
  cases h with
  | nil => simp [render] at hprefix
  | @reference other cs ps hother h =>
    rw [render_cons, Part.render] at hprefix
    cases hvalue : env other with
    | none => simp [hvalue, toList_reference] at hprefix
    | some value =>
      obtain ⟨d, rest, hd, hne⟩ := hclear.dollars other ⟨[], ps, rfl⟩ value hvalue
      rw [hvalue, Option.getD_some, hd, List.cons_append, List.cons_prefix_cons] at hprefix
      exact hne hprefix.1.symm
  | @character d cs ps hd h =>
    rw [render_cons, Part.render, List.singleton_append, List.cons_prefix_cons] at hprefix
    obtain ⟨rfl, hprefix⟩ := hprefix
    by_cases hbrace : '}' ∈ cs
    · -- in the text a closing brace comes first, since no reference begins here
      obtain ⟨front, rest, rfl, hfront⟩ := List.eq_append_cons_of_mem hbrace
      have hnil : front = [] := by
        by_contra hne
        refine hc (String.ofList front) (isName_ofList.mpr ⟨hne, hfront⟩) ⟨rest, ?_⟩
        simp [toList_reference]
      subst hnil
      obtain ⟨e, name', hname'⟩ := List.exists_cons_of_ne_nil hname.1
      rw [hname', List.cons_append] at hprefix
      rw [List.nil_append] at h
      generalize hcs : '}' :: rest = cs at h
      cases h with
      | nil => contradiction
      | reference => simp [toList_reference] at hcs
      | character =>
        obtain ⟨rfl, -⟩ := List.cons_eq_cons.mp hcs
        rw [render_cons, Part.render, List.singleton_append, List.cons_prefix_cons] at hprefix
        exact hname.2 (by simp [hname', hprefix.1])
    · have hnone : ∀ other, .reference other ∈ ps → env other = none := fun other hother =>
        absurd (h.brace_mem hother) hbrace
      rw [h.render_eq hnone] at hprefix
      exact hbrace (List.IsPrefix.subset hprefix (by simp))

/-- No reference begins inside of a reference to another name. -/
lemma not_prefix_reference {other : String} (hname : IsName name) (hother : IsName other)
    (hne : other ≠ name) (hnot : ¬ '$' :: '{' :: name.toList <:+ other.toList) {t rest : List Char}
    (ht : t <:+ (reference other).toList) (htne : t ≠ []) :
    ¬(reference name).toList <+: t ++ rest := by
  intro hprefix
  obtain ⟨u, rfl, hu⟩ : ∃ u, t = u ++ ['}'] ∧ u <:+ '$' :: '{' :: other.toList := by
    rw [reference_eq_concat, List.suffix_concat_iff] at ht
    exact ht.resolve_left htne
  have hbrace : '}' ∉ u := fun h => by
    have hmem := hu.subset h
    simp [hother.2] at hmem
  have hname' : '}' ∉ '$' :: '{' :: name.toList := by simp [hname.2]
  have hprefix' : '$' :: '{' :: name.toList ++ ['}'] <+: u ++ '}' :: rest := by
    simpa [reference_eq_concat] using hprefix
  rw [← eq_of_append_prefix hname' hbrace hprefix', List.suffix_cons_iff,
    List.suffix_cons_iff] at hu
  rcases hu with hu | hu | hu
  · exact hne (String.toList_inj.mp (by simpa using hu.symm))
  · simp at hu
  · exact hnot hu

/-- No reference begins inside of a value. -/
lemma Undisturbed.not_prefix_value (h : Undisturbed env ps name) {other : String}
    (hother : .reference other ∈ ps) (hvalue : env other = some value) {t rest : List Char}
    (ht : t <:+ value.toList) (htne : t ≠ []) : ¬(reference name).toList <+: t ++ rest := by
  intro hprefix
  obtain ⟨hnot, hnot'⟩ := h.values other hother value hvalue t ht htne
  rcases List.prefix_or_prefix_of_prefix hprefix (List.prefix_append t rest) with h | h
  · exact hnot h
  · exact hnot' h

/-- **Replacing a name puts its value in the place of the references to it**, and changes nothing
else. -/
lemma Reads.replaceFrom_render (h : Reads cs ps) (hname : IsName name)
    (hclear : Undisturbed env ps name) (hvalue : env name = none ∨ env name = some value) :
    replaceFrom (Environment.reference name).toList value.toList 0 (render env ps) =
      render (Function.update env name (some value)) ps := by
  induction h with
  | nil => rfl
  | character hc h ih =>
    have hnot := h.not_prefix_character hc hname hclear
    rw [render_cons, render_cons, ← ih hclear.tail]
    exact replaceFrom_cons hnot _
  | @reference other cs ps hother _ ih =>
    rw [render_cons, render_cons, ← ih hclear.tail, Part.render, Part.render]
    cases hput : env other with
    | some put =>
      have hsame : Function.update env name (some value) other = some put := by
        by_cases hsame : other = name
        · subst hsame
          rw [Function.update_self, ← hput, hvalue.resolve_left (by simp [hput])]
        · rw [Function.update_of_ne hsame, hput]
      rw [hsame, Option.getD_some]
      exact replaceFrom_append (fun t => hclear.not_prefix_value List.mem_cons_self hput) _
    | none =>
      rw [Option.getD_none]
      by_cases hsame : other = name
      · subst hsame
        rw [Function.update_self, Option.getD_some]
        exact replaceFrom_segment (by simp [toList_reference]) _ _
      · rw [Function.update_of_ne hsame, hput, Option.getD_none]
        exact replaceFrom_append (fun t => not_prefix_reference hname hother hsame
          (hclear.names other List.mem_cons_self)) _

/-! ## One name after the other -/

/-- The values of some names. -/
def only (env : Environment) (names : List String) : Environment :=
  fun name => if name ∈ names then env name else none

/-- Each name of a text that has a value is replaced undisturbed. -/
def Separate (env : Environment) (s : String) : Prop :=
  ∀ front name back, names s = front ++ name :: back → (env name).isSome →
    Undisturbed (env.only front) (parts s) name

lemma isName_of_mem_names (hname : name ∈ names s) : IsName name :=
  ((reads_parts s).isName_infix_of_mem (mem_names_iff.mp hname)).1

lemma infix_of_mem_names (hname : name ∈ names s) : (reference name).toList <:+: s.toList :=
  ((reads_parts s).isName_infix_of_mem (mem_names_iff.mp hname)).2

lemma only_concat (env : Environment) (front : List String) (name : String) :
    env.only (front ++ [name]) = Function.update (env.only front) name (env name) := by
  funext other
  by_cases h : other = name
  · subst h
    simp [only]
  · simp [only, h]

lemma update_only_of_none (front : List String) (h : env name = none) :
    Function.update (env.only front) name (env name) = env.only front := by
  rw [Function.update_eq_self_iff, h, only, h, ite_self]

/-- One name after those in front of it. -/
lemma Separate.replaceName_eq (h : Separate env s) {front back : List String}
    (hnames : names s = front ++ name :: back) :
    env.replaceName (String.ofList (render (env.only front) (parts s))) name =
      String.ofList (render (env.only (front ++ [name])) (parts s)) := by
  rw [only_concat]
  cases hvalue : env name with
  | none => rw [← hvalue, update_only_of_none front hvalue, replaceName, hvalue]
  | some value =>
    have hclear := h front name back hnames (by rw [hvalue]; rfl)
    have hmem : name ∈ names s := by simp [hnames]
    have hname := isName_of_mem_names hmem
    have hput : env.only front name = none ∨ env.only front name = some value := by
      rw [only, hvalue]
      split <;> simp
    rw [replaceName, hvalue, ← (reads_parts s).replaceFrom_render hname hclear hput]
    simp only [replace, String.toList_ofList]

lemma Separate.foldl_replaceName (h : Separate env s) {front back : List String}
    (hnames : names s = front ++ back) :
    back.foldl env.replaceName (String.ofList (render (env.only front) (parts s))) =
      String.ofList (render (env.only (names s)) (parts s)) := by
  induction back generalizing front with
  | nil => rw [hnames, List.append_nil, List.foldl_nil]
  | cons name back ih =>
    rw [List.foldl_cons, h.replaceName_eq hnames, ih (by simp [hnames])]

/-- **Undisturbed replacements make a simultaneous substitution.** -/
lemma Separate.expand_eq (h : Separate env s) : env.expand s = env.substitute s := by
  have hnone : render (env.only []) (parts s) = s.toList :=
    (reads_parts s).render_eq fun _ _ => rfl
  have hall : render (env.only (names s)) (parts s) = render env (parts s) :=
    render_congr fun name hname => if_pos (mem_names_iff.mpr hname)
  have hfold := h.foldl_replaceName (List.nil_append (names s)).symm
  rwa [hnone, hall, String.ofList_toList] at hfold

/-- A single reference is undisturbed. -/
lemma separate_of_length_le (h : (names s).length ≤ 1) (env : Environment) : Separate env s := by
  intro front name back hnames _
  obtain ⟨rfl, rfl⟩ : front = [] ∧ back = [] := by
    rw [hnames, List.length_append, List.length_cons] at h
    constructor <;> exact List.eq_nil_of_length_eq_zero (by omega)
  have hnone : ∀ other value, env.only [] other ≠ some value := fun _ _ h => by cases h
  refine ⟨fun other _ value hvalue => absurd hvalue (hnone other value),
    fun other _ value hvalue => absurd hvalue (hnone other value), fun other hother hsuffix => ?_⟩
  have hmem := mem_names_iff.mpr hother
  rw [hnames] at hmem
  obtain rfl := List.mem_singleton.mp hmem
  have hlength := hsuffix.length_le
  simp only [List.length_cons] at hlength
  omega

/-- Values and names without dollar signs leave each other undisturbed, if none stands in front of a
reference either. -/
lemma separate_of_no_dollar
    (hvalues : ∀ name ∈ names s, ∀ value, env name = some value → '$' ∉ value.toList)
    (hnames : ∀ name ∈ names s, '$' ∉ name.toList)
    (hdollars : ∀ name, ¬[.character '$', .reference name] <:+: parts s) : Separate env s := by
  intro front name back _ _
  refine ⟨fun other hother value hvalue t ht htne => ?_,
    fun other hother => absurd hother (hdollars other), fun other hother hsuffix => ?_⟩
  · have hput : env other = some value := by
      unfold only at hvalue
      split at hvalue
      · exact hvalue
      · contradiction
    have hdollar : '$' ∉ t := fun h =>
      hvalues other (mem_names_iff.mpr hother) value hput (ht.subset h)
    rw [toList_reference]
    refine ⟨fun h => hdollar (h.subset List.mem_cons_self), fun h => ?_⟩
    obtain ⟨c, t, rfl⟩ := List.exists_cons_of_ne_nil htne
    rw [List.cons_prefix_cons] at h
    exact hdollar (h.1 ▸ List.mem_cons_self)
  · exact hnames other (mem_names_iff.mpr hother) (hsuffix.subset List.mem_cons_self)

/-! ## Texts with several references -/

/-- A list some number of times. -/
def copies (n : Nat) (cs : List Char) : List Char := (List.replicate n cs).flatten

lemma copies_succ (n : Nat) (cs : List Char) : copies (n + 1) cs = cs ++ copies n cs := by
  simp [copies, List.replicate_succ]

lemma length_copies (n : Nat) (cs : List Char) : (copies n cs).length = n * cs.length := by
  simp [copies]

/-- References to a name do not overlap. -/
lemma exists_eq_append_of_prefix (hname : IsName name) {front rest : List Char} (hne : front ≠ [])
    (h : (reference name).toList <+: front ++ ((reference name).toList ++ rest)) :
    ∃ front', front = (reference name).toList ++ front' := by
  have hbrace : '}' ∉ '$' :: '{' :: name.toList := by simp [hname.2]
  by_cases hmem : '}' ∈ front
  · obtain ⟨inner, front', rfl, hinner⟩ := List.eq_append_cons_of_mem hmem
    have hprefix : '$' :: '{' :: name.toList ++ ['}'] <+:
        inner ++ '}' :: (front' ++ ((reference name).toList ++ rest)) := by
      rw [← reference_eq_concat]
      simpa using h
    exact ⟨front', by simp [← eq_of_append_prefix hbrace hinner hprefix, reference_eq_concat]⟩
  · have hprefix : '$' :: '{' :: name.toList ++ ['}'] <+:
        (front ++ '$' :: '{' :: name.toList) ++ '}' :: rest := by
      simpa [reference_eq_concat] using h
    have hself := eq_of_append_prefix hbrace (by simp [hmem, hname.2]) hprefix
    exact absurd (List.self_eq_append_left.mp hself) hne

/-- A reference is replaced whatever stands in front of it. -/
lemma exists_replaceFrom_append (hname : IsName name) (value front rest : List Char) :
    ∃ front', replaceFrom (reference name).toList value 0
        (front ++ ((reference name).toList ++ rest)) =
      front' ++ (value ++ replaceFrom (reference name).toList value 0 rest) := by
  have hnil : (reference name).toList ≠ [] := by simp [toList_reference]
  induction hlength : front.length using Nat.strongRecOn generalizing front with
  | ind n ih =>
    cases front with
    | nil => exact ⟨[], replaceFrom_segment hnil value rest⟩
    | cons c front =>
      by_cases hprefix : (reference name).toList <+: c :: front ++ ((reference name).toList ++ rest)
      · obtain ⟨front', hfront⟩ := exists_eq_append_of_prefix hname (by simp) hprefix
        have hlt : front'.length < n := by
          have hpos := List.length_pos_iff.mpr hnil
          rw [← hlength, hfront, List.length_append]
          omega
        obtain ⟨front'', h⟩ := ih _ hlt front' rfl
        exact ⟨value ++ front'', by
          rw [hfront, List.append_assoc, replaceFrom_segment hnil, h, List.append_assoc]⟩
      · obtain ⟨front', hfront'⟩ := ih _ (by simp [← hlength]) front rfl
        rw [List.cons_append] at hprefix ⊢
        exact ⟨c :: front', by rw [replaceFrom_cons hprefix, hfront', List.cons_append]⟩

/-- Each copy of a reference is replaced. -/
lemma length_le_replaceFrom_copies (hname : IsName name) (value front rest : List Char) (n : Nat) :
    n * value.length ≤ (replaceFrom (reference name).toList value 0
      (front ++ (copies n (reference name).toList ++ rest))).length := by
  induction n generalizing front rest with
  | zero => simp
  | succ n ih =>
    rw [copies_succ, List.append_assoc]
    obtain ⟨front', h⟩ := exists_replaceFrom_append hname value front
      (copies n (reference name).toList ++ rest)
    have ih := ih [] rest
    rw [List.nil_append] at ih
    rw [h, List.length_append, List.length_append, Nat.succ_mul]
    omega

/-- The value gets into the text where there is a reference. -/
lemma infix_replaceFrom {segment cs : List Char} (hne : segment ≠ []) (value : List Char)
    (h : segment <:+: cs) : value <:+: replaceFrom segment value 0 cs := by
  induction cs with
  | nil => exact absurd (List.infix_nil.mp h) hne
  | cons c cs ih =>
    by_cases hprefix : segment <+: c :: cs
    · obtain ⟨rest, hrest⟩ := hprefix
      rw [← hrest, replaceFrom_segment hne]
      exact (List.prefix_append _ _).isInfix
    · rw [replaceFrom_cons hprefix]
      exact (ih ((List.infix_cons_iff.mp h).resolve_left hprefix)).trans
        (List.suffix_cons c _).isInfix

/-- A text does not get shorter when a segment is replaced by a longer one. -/
lemma length_le_replaceFrom {segment value : List Char} (hne : segment ≠ [])
    (h : segment.length ≤ value.length) (skip : Nat) (cs : List Char) :
    cs.length ≤ (replaceFrom segment value skip cs).length + skip := by
  have hpos := List.length_pos_iff.mpr hne
  induction cs generalizing skip with
  | nil => simp
  | cons c cs ih =>
    cases skip with
    | succ skip =>
      have ih := ih skip
      rw [replaceFrom, List.length_cons]
      omega
    | zero =>
      rw [replaceFrom]
      split
      · have ih := ih (segment.length - 1)
        rw [List.length_append, List.length_cons]
        omega
      · have ih := ih 0
        rw [List.length_cons, List.length_cons]
        omega

lemma toList_replaceName (value s name : String) :
    (replaceName (fun _ => some value) s name).toList =
      replaceFrom (reference name).toList value.toList 0 s.toList := by
  simp [replaceName, replace]

lemma length_le_foldl_replaceName {names : List String}
    (h : ∀ name ∈ names, (reference name).toList.length ≤ value.toList.length) (s : String) :
    s.toList.length ≤ (names.foldl (replaceName fun _ => some value) s).toList.length := by
  induction names generalizing s with
  | nil => exact le_rfl
  | cons name names ih =>
    rw [List.forall_mem_cons] at h
    have hstep := length_le_replaceFrom (by simp [toList_reference]) h.1 0 s.toList
    rw [← toList_replaceName, Nat.add_zero] at hstep
    exact hstep.trans (ih h.2 _)

/-- When the first name is replaced by references to the second one, each of them is replaced. -/
lemma length_le_expand {first second : String} {rest : List String} {n : Nat}
    (hnames : names s = first :: second :: rest)
    (hvalue : value.toList = copies n (reference second).toList)
    (hrest : ∀ name ∈ rest, (reference name).toList.length ≤ value.toList.length) :
    n * value.toList.length ≤ (expand (fun _ => some value) s).toList.length := by
  have hfirst : (reference first).toList <:+: s.toList := infix_of_mem_names (by simp [hnames])
  have hsecond : IsName second := isName_of_mem_names (s := s) (by simp [hnames])
  obtain ⟨front, back, hput⟩ : value.toList <:+:
      (replaceName (fun _ => some value) s first).toList := by
    rw [toList_replaceName]
    exact infix_replaceFrom (by simp [toList_reference]) _ hfirst
  have htwo := length_le_replaceFrom_copies hsecond value.toList front back n
  rw [← hvalue, ← List.append_assoc, hput, ← toList_replaceName] at htwo
  rw [expand, hnames, List.foldl_cons, List.foldl_cons]
  exact htwo.trans (length_le_foldl_replaceName hrest _)

lemma Reads.length_render_le (h : Reads cs ps) (value : String) :
    (render (fun _ => some value) ps).length ≤
      cs.length + (ps.filterMap Part.name?).length * value.toList.length := by
  induction h with
  | nil => simp [render]
  | @reference name cs ps _ _ ih =>
    have hnames : (Part.reference name :: ps).filterMap Part.name? =
        name :: ps.filterMap Part.name? := rfl
    rw [render_cons, Part.render, hnames, Option.getD_some, List.length_cons, List.length_append,
      List.length_append, Nat.succ_mul]
    omega
  | character _ _ ih =>
    rw [render_cons, Part.render, List.filterMap_cons_none rfl, List.length_append,
      List.length_singleton, List.length_cons]
    omega

lemma length_substitute_le (s value : String) :
    (substitute (fun _ => some value) s).toList.length ≤
      s.toList.length + (names s).length * value.toList.length := by
  rw [substitute, String.toList_ofList, names_eq]
  exact (reads_parts s).length_render_le value

/-- **Two references go wrong** for some values: with enough references to the second name in the
place of the first one, the text gets too long for a substitution. -/
lemma exists_expand_ne (h : 1 < (names s).length) :
    ∃ env : Environment, env.expand s ≠ env.substitute s := by
  obtain ⟨first, second, rest, hnames⟩ :
      ∃ first second rest, names s = first :: second :: rest := by
    match hnames : names s with
    | [] => simp [hnames] at h
    | [_] => simp [hnames] at h
    | first :: second :: rest => exact ⟨first, second, rest, rfl⟩
  obtain ⟨n, hn⟩ : ∃ n, n = s.toList.length + 1 + (names s).length := ⟨_, rfl⟩
  obtain ⟨value, hvalue⟩ : ∃ value : String, value.toList = copies n (reference second).toList :=
    ⟨_, String.toList_ofList⟩
  have hlength : n ≤ value.toList.length := by
    rw [hvalue, length_copies]
    exact Nat.le_mul_of_pos_right n (by simp [toList_reference])
  have hrest : ∀ name ∈ rest, (reference name).toList.length ≤ value.toList.length := by
    intro name hname
    have hmem : name ∈ names s := by simp [hnames, hname]
    have hle := (infix_of_mem_names hmem).length_le
    omega
  refine ⟨fun _ => some value, fun heq => ?_⟩
  have hexpand := length_le_expand hnames hvalue hrest
  have hsubstitute := length_substitute_le s value
  have hpos : s.toList.length + 1 ≤ (s.toList.length + 1) * value.toList.length :=
    Nat.le_mul_of_pos_right _ (by omega)
  rw [heq, hn, Nat.add_mul] at hexpand
  omega

/-- **When expansion is a simultaneous substitution.**  It is one if each name that has a value is
replaced undisturbed: the values put in before contain no reference to it, neither alone nor with
what stands around them, and no other name ends with a reference to it.  Texts with at most one
reference, and no others, are safe from all values. -/
theorem expand_exact (s : String) :
    (∀ env : Environment, Separate env s → env.expand s = env.substitute s) ∧
      ((∀ env : Environment, env.expand s = env.substitute s) ↔ (names s).length ≤ 1) := by
  refine ⟨fun env h => h.expand_eq, fun h => ?_,
    fun h env => (separate_of_length_le h env).expand_eq⟩
  by_contra hlength
  obtain ⟨env, hne⟩ := exists_expand_ne (Nat.lt_of_not_le hlength)
  exact hne (h env)

/-- One name with a value, twice, and one without. -/
theorem expand_exact_target :
    let env : Environment := fun name => if name = "TARGET" then some "Review" else none
    let s := "target = $\x7bTARGET\x7d, other = $\x7bOTHER\x7d, back = $\x7bTARGET\x7d"
    Separate env s ∧ env.expand s = "target = Review, other = $\x7bOTHER\x7d, back = Review" := by
  intro env s
  have hseparate : Separate env s := by
    refine separate_of_no_dollar (fun name _ value hvalue => ?_) (by decide +kernel)
      fun name h => ?_
    · simp only [env] at hvalue
      split at hvalue
      · rw [← Option.some.inj hvalue]
        decide
      · contradiction
    · have hdollar : .character '$' ∉ parts s := by decide +kernel
      exact hdollar (h.subset List.mem_cons_self)
  refine ⟨hseparate, ((expand_exact s).1 env hseparate).trans ?_⟩
  decide +kernel

/-- The value of the first name refers to the second one. -/
theorem expand_not_always_exact :
    ¬∀ (env : Environment) (s : String), env.expand s = env.substitute s := by
  intro h
  have heq := h (fun name => if name = "A" then some "$\x7bB\x7d" else if name = "B" then some "b"
    else none) "$\x7bA\x7d $\x7bB\x7d"
  revert heq
  decide +kernel

end Environment

end EntityFilter
