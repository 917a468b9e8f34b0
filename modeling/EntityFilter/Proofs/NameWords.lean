import EntityFilter.Text.Segment
import Mathlib.Data.List.Basic

/-!
# The words of names

Names are put together with underscores, so what a name says is read off its words
(`Text.nameWords`).  Putting names together appends their words (`Text.nameWords_append`), and two
underscores in a row leave an empty word between them, by which a path is told apart from what
stands behind it.

Reading goes from left to right.  Where two lists of words are the same, either they begin with the
same name, or one name goes on after the words of the other, with the word that follows the other
(`Text.append_eq_cases`).  Names that never go on with a word that some name begins with can
therefore be joined without being confused (`Text.IsCode.flatMap_nameWords_inj`).
-/

namespace EntityFilter.Text

variable {a b name : String} {names : List String} {xs ys ts us : List String} {w : String}

/-! ## Words -/

/-- What stands between the underscores of a name. -/
def nameWords (s : String) : List String := (s.toList.splitOn '_').map String.ofList

lemma nameWords_ne_nil (s : String) : nameWords s ≠ [] := by
  simp [nameWords, List.splitOn_ne_nil]

/-- **Names that are put together have their words one after the other.** -/
theorem nameWords_append (a b : String) :
    nameWords (a ++ "_" ++ b) = nameWords a ++ nameWords b := by
  have hlist : (a ++ "_" ++ b).toList = a.toList ++ '_' :: b.toList := by
    simp [String.toList_append]
  rw [nameWords, hlist, List.splitOn_append_cons_self, List.map_append]
  rfl

theorem nameWords_injective : Function.Injective nameWords := by
  intro a b h
  have hpieces : a.toList.splitOn '_' = b.toList.splitOn '_' :=
    List.map_injective_iff.mpr (fun _ _ h => String.ofList_injective h) h
  have hjoined := congrArg ['_'].intercalate hpieces
  rw [List.intercalate_splitOn, List.intercalate_splitOn] at hjoined
  exact String.toList_inj.mp hjoined

/-- A name without an underscore is a word. -/
lemma nameWords_eq_singleton (h : '_' ∉ name.toList) : nameWords name = [name] := by
  rw [nameWords, List.splitOn_eq_singleton h, List.map_singleton, String.ofList_toList]

/-- A separator with words of its own. -/
lemma nameWords_append_append {separator middle : String} (h : separator = "_" ++ middle ++ "_") :
    nameWords (a ++ separator ++ b) = nameWords a ++ (nameWords middle ++ nameWords b) := by
  have hsame : a ++ separator ++ b = a ++ "_" ++ (middle ++ "_" ++ b) := by
    rw [h]
    simp only [String.append_assoc]
  rw [hsame, nameWords_append, nameWords_append]

/-- An ending with words of its own. -/
lemma nameWords_append_ending {ending last : String} (h : ending = "_" ++ last) :
    nameWords (a ++ ending) = nameWords a ++ nameWords last := by
  rw [h, ← String.append_assoc, nameWords_append]

lemma nameWords_join (h : names ≠ []) : nameWords (join "_" names) = names.flatMap nameWords := by
  induction names with
  | nil => exact absurd rfl h
  | cons name names ih =>
    by_cases hnames : names = []
    · simp [hnames, join]
    · have hjoin : join "_" (name :: names) = name ++ "_" ++ join "_" names :=
        String.intercalate_cons_of_ne_nil hnames
      rw [hjoin, nameWords_append, ih hnames, List.flatMap_cons]

/-- An ending that is there only if there is something to say: a sign with further names behind. -/
lemma nameWords_append_section {separator sign text : String} {isEmpty : Bool}
    (hseparator : separator = "_" ++ sign ++ "_")
    (htext : isEmpty = false → nameWords text = names.flatMap nameWords) :
    nameWords (a ++ if isEmpty then "" else separator ++ text) =
      nameWords a ++ (if isEmpty then [] else sign :: names).flatMap nameWords := by
  cases isEmpty with
  | true => simp
  | false =>
    simp only [Bool.false_eq_true, if_false, List.flatMap_cons]
    rw [← String.append_assoc, nameWords_append_append hseparator, htext rfl]

/-- The words of a path, each name followed by the empty word between two underscores. -/
def pathWords (path : List String) : List String := path.flatMap fun name => nameWords name ++ [""]

lemma nameWords_join_path (h : names ≠ []) :
    nameWords (join "__" names) ++ [""] = pathWords names := by
  induction names with
  | nil => exact absurd rfl h
  | cons name names ih =>
    by_cases hnames : names = []
    · simp [hnames, join, pathWords]
    · have hjoin : join "__" (name :: names) = name ++ "__" ++ join "__" names :=
        String.intercalate_cons_of_ne_nil hnames
      have hseparator : "__" = "_" ++ "" ++ "_" := rfl
      have hempty : nameWords "" = [""] := by decide
      rw [hjoin, nameWords_append_append hseparator, hempty, List.append_assoc, List.append_assoc,
        ih hnames]
      simp [pathWords]

/-! ## Reading from left to right -/

/-- The word with which a list of words goes on after the words of another. -/
def next? : List String → List String → Option String
  | [], w :: _ => some w
  | x :: xs, y :: ys => if x = y then next? xs ys else none
  | _, [] => none

lemma next?_eq_some : next? xs ys = some w ↔ ∃ rest, ys = xs ++ w :: rest := by
  induction xs generalizing ys with
  | nil => cases ys <;> simp [next?, eq_comm]
  | cons x xs ih =>
    cases ys with
    | nil => simp [next?]
    | cons y ys =>
      by_cases h : x = y
      · simp [next?, h, ih]
      · simp [next?, h, Ne.symm h]

/-- Two lists of words that are the same begin in the same way, or one beginning goes on after the
other with the word that follows there. -/
lemma append_eq_cases (h : xs ++ ts = ys ++ us) :
    (xs = ys ∧ ts = us) ∨ (∃ w, next? xs ys = some w ∧ ts.head? = some w) ∨
      ∃ w, next? ys xs = some w ∧ us.head? = some w := by
  rcases List.append_eq_append_iff.mp h with ⟨rest, rfl, rfl⟩ | ⟨rest, rfl, rfl⟩
  · cases rest with
    | nil => simp
    | cons w rest => exact .inr (.inl ⟨w, next?_eq_some.mpr ⟨rest, rfl⟩, rfl⟩)
  · cases rest with
    | nil => simp
    | cons w rest => exact .inr (.inr ⟨w, next?_eq_some.mpr ⟨rest, rfl⟩, rfl⟩)

/-- What stands behind a path without empty words is told apart from the path. -/
theorem pathWords_append_inj {path path' : List String}
    (hpath : ∀ name ∈ path, "" ∉ nameWords name) (hpath' : ∀ name ∈ path', "" ∉ nameWords name)
    (hts : "" ∉ ts) (hus : "" ∉ us)
    (h : pathWords path ++ ts = pathWords path' ++ us) : path = path' ∧ ts = us := by
  have hcons : ∀ (name : String) (path rest : List String),
      pathWords (name :: path) ++ rest = nameWords name ++ "" :: (pathWords path ++ rest) := by
    simp [pathWords]
  induction path generalizing path' with
  | nil =>
    cases path' with
    | nil => exact ⟨rfl, h⟩
    | cons name' path' =>
      rw [hcons] at h
      have hempty : ts = nameWords name' ++ "" :: (pathWords path' ++ us) := h
      exact absurd (by simp [hempty]) hts
  | cons name path ih =>
    cases path' with
    | nil =>
      rw [hcons] at h
      have hempty : us = nameWords name ++ "" :: (pathWords path ++ ts) := h.symm
      exact absurd (by simp [hempty]) hus
    | cons name' path' =>
      rw [hcons, hcons] at h
      rw [List.forall_mem_cons] at hpath hpath'
      rcases append_eq_cases h with ⟨hname, hrest⟩ | ⟨w, hw, hhead⟩ | ⟨w, hw, hhead⟩
      · obtain ⟨rfl, hsame⟩ := ih hpath.2 hpath'.2 (List.cons.inj hrest).2
        exact ⟨by rw [nameWords_injective hname], hsame⟩
      · obtain rfl := Option.some.inj hhead
        obtain ⟨rest, hrest⟩ := next?_eq_some.mp hw
        exact absurd (by simp [hrest]) hpath'.1
      · obtain rfl := Option.some.inj hhead
        obtain ⟨rest, hrest⟩ := next?_eq_some.mp hw
        exact absurd (by simp [hrest]) hpath.1

/-! ## Names that are joined -/

/-- No name goes on, after the words of another, with a word that some name begins with. -/
def IsCode (names : List String) : Prop :=
  ∀ a ∈ names, ∀ b ∈ names, ∀ w ∈ next? (nameWords a) (nameWords b), ∀ d ∈ names,
    (nameWords d).head? ≠ some w

instance (names : List String) : Decidable (IsCode names) := by
  unfold IsCode
  infer_instance

lemma flatMap_nameWords_eq_nil (h : names.flatMap nameWords = []) : names = [] := by
  cases names with
  | nil => rfl
  | cons name names =>
    exact absurd (List.flatMap_eq_nil_iff.mp h name List.mem_cons_self) (nameWords_ne_nil name)

/-- **Names of a code are read off the words of the list.** -/
theorem IsCode.flatMap_nameWords_inj (h : IsCode names) {as bs : List String}
    (has : ∀ a ∈ as, a ∈ names) (hbs : ∀ b ∈ bs, b ∈ names)
    (heq : as.flatMap nameWords = bs.flatMap nameWords) : as = bs := by
  -- what follows a name is the end, or a word that a name begins with
  have hhead : ∀ {ns : List String} {w : String}, (∀ n ∈ ns, n ∈ names) →
      (ns.flatMap nameWords).head? = some w → ∃ d ∈ names, (nameWords d).head? = some w := by
    intro ns w hns hw
    cases ns with
    | nil => simp at hw
    | cons n ns =>
      refine ⟨n, hns n List.mem_cons_self, ?_⟩
      rwa [List.flatMap_cons, List.head?_append_of_ne_nil _ (nameWords_ne_nil n)] at hw
  induction as generalizing bs with
  | nil => exact (flatMap_nameWords_eq_nil heq.symm).symm
  | cons a as ih =>
    cases bs with
    | nil => exact flatMap_nameWords_eq_nil heq
    | cons b bs =>
      rw [List.forall_mem_cons] at has hbs
      rw [List.flatMap_cons, List.flatMap_cons] at heq
      rcases append_eq_cases heq with ⟨hname, hrest⟩ | ⟨w, hw, hnext⟩ | ⟨w, hw, hnext⟩
      · rw [nameWords_injective hname, ih has.2 hbs.2 hrest]
      · obtain ⟨d, hd, hdw⟩ := hhead has.2 hnext
        exact absurd hdw (h a has.1 b hbs.1 w hw d hd)
      · obtain ⟨d, hd, hdw⟩ := hhead hbs.2 hnext
        exact absurd hdw (h b hbs.1 a has.1 w hw d hd)

end EntityFilter.Text
