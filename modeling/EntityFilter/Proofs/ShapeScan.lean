import EntityFilter.Pattern.Shape
import EntityFilter.Proofs.RepeatedGroups
import Mathlib.Tactic.FinCases
import Mathlib.Tactic.Set

/-!
# Where the scanner of shapes and the reader agree

The scanner reads the text of a pattern for itself, character by character.  Here it is compared
with the reader, item by item: where the reader has taken an escape, a class or the beginning of a
group, the scanner has passed over the same characters, and it finds the same bounds in a counted
repetition.  Two things are needed.  Nothing may be left out under the verbose flag, of which the
scanner knows nothing, and no range of a class may end with an opening bracket, which the scanner
takes for the beginning of an inner class (`scan_class`).
-/

namespace EntityFilter

namespace Pattern

namespace Shape

open Reader (isOrdinary)

variable {t : State} {c : Char} {cs text after : List Char} {m : Mode}

/-! ## Characters -/

/-- The scanner behind something that it has passed over. -/
def State.passed (t : State) : State := { t with mode := .plain, closed := none }

/-- The scanner where it looks for the next item. -/
def State.atItem (t : State) : State := { t with mode := .plain }

lemma scan_cons {u : State} (h : t.step c cs = .ok u) : scan t (c :: cs) = scan u cs := by
  rw [scan, h]

lemma plain_of_isOrdinary (hc : isOrdinary c) : t.plain c cs = .ok t.passed := by
  unfold State.plain
  split
  · simp [isOrdinary] at hc
  · simp [isOrdinary] at hc
  · simp [isOrdinary] at hc
  · simp [isOrdinary] at hc
  · unfold State.item
    dsimp only
    split
    · simp [isOrdinary] at hc
    · simp [isOrdinary] at hc
    · simp [isOrdinary] at hc
    · simp [isOrdinary] at hc
    · simp [isOrdinary] at hc
    · rfl

lemma scan_ordinary (hmode : t.mode = .plain) (hc : isOrdinary c) :
    scan t (c :: cs) = scan t.passed cs := by
  refine scan_cons ?_
  rw [State.step, hmode]
  exact plain_of_isOrdinary hc

lemma scan_passed (h : ∀ c ∈ text, isOrdinary c) :
    scan t.passed (text ++ after) = scan t.passed after := by
  induction text with
  | nil => rfl
  | cons c text ih =>
    obtain ⟨hc, htext⟩ := List.forall_mem_cons.mp h
    rw [List.cons_append, scan_ordinary rfl hc]
    exact ih htext

/-! ## Escapes -/

lemma isOrdinary_of_hexValue? (h : (Text.hexValue? c).isSome) : isOrdinary c := by
  by_contra hc
  simp only [isOrdinary, Bool.not_eq_true, Bool.not_eq_false', List.contains_iff_mem] at hc
  fin_cases hc <;> exact absurd h (by decide)

lemma scan_braces (h : '}' ∉ text) :
    scan { t with mode := .braces } (text ++ '}' :: after) = scan t.atItem after := by
  induction text with
  | nil => exact scan_cons rfl
  | cons c text ih =>
    rw [List.mem_cons, not_or] at h
    have hstep : State.step { t with mode := .braces } c (text ++ '}' :: after) =
        .ok { t with mode := .braces } := by
      simp [State.step, Ne.symm h.1]
    rw [List.cons_append, scan_cons hstep]
    exact ih h.2

lemma counted?_eq (h : '}' ∉ text) :
    counted? (text ++ '}' :: after) = (countOf? text).map fun n => (n, text.length + 1) := by
  have hbody : (text ++ '}' :: after).takeWhile (· != '}') = text := by
    rw [List.takeWhile_append_of_pos fun c hc => bne_iff_ne.mpr (ne_of_mem_of_not_mem hc h)]
    simp
  rw [counted?]
  simp [hbody]

/-- Where something may follow an item that does not, the scanner looks for the next item. -/
lemma scan_beforeBrace (hc : c ≠ '{') :
    scan { t with mode := .beforeBrace } (c :: cs) = scan t.atItem (c :: cs) := by
  rw [scan, scan, State.step, State.step, if_neg hc]
  rfl

lemma scan_escape (h : Reader.EscapeText after cs) (hmode : t.mode = .plain) :
    scan t ('\\' :: cs) = scan t.passed after := by
  have hopen : scan t ('\\' :: cs) = scan { t.passed with mode := .escape } cs := by
    refine scan_cons ?_
    rw [State.step, hmode]
    rfl
  have hletter : ∀ c cs, scan { t.passed with mode := .escape } (c :: cs) =
      scan { t.passed with mode := if Reader.opensBraces c then .beforeBrace else .plain } cs :=
    fun c cs => scan_cons rfl
  rw [hopen]
  cases h with
  | char hc =>
    rw [hletter, hc]
    rfl
  | @braces c digits hc hhex =>
    have hbrace : '}' ∉ digits := fun hmem => absurd (hhex _ hmem) (by decide)
    rw [hletter, if_pos hc, scan_cons (u := { t.passed with mode := .braces }) rfl]
    exact scan_braces hbrace
  | @digits c digits hc hhex hne =>
    have hordinary : ∀ d ∈ digits, isOrdinary d := fun d hd => isOrdinary_of_hexValue? (hhex d hd)
    obtain ⟨d, ds, rfl⟩ := List.exists_cons_of_ne_nil hne
    have hd : d ≠ '{' := by
      rintro rfl
      exact absurd (hordinary _ List.mem_cons_self) (by decide)
    rw [hletter, if_pos hc, List.cons_append, scan_beforeBrace hd]
    exact scan_passed hordinary
  | @boundary l name hname =>
    have hcount : ∀ x ∈ Reader.boundaries, countOf? x.1.toList = none := by decide
    have hbrace : ∀ x ∈ Reader.boundaries, '}' ∉ x.1.toList := by decide
    have hordinary : ∀ x ∈ Reader.boundaries, (x.1.toList ++ ['}']).all isOrdinary := by decide
    have hstep : t.passed.step '{' (name.toList ++ '}' :: after) = .ok t.passed := by
      have hnone : counted? (name.toList ++ '}' :: after) = none := by
        rw [counted?_eq (hbrace _ hname), hcount _ hname, Option.map_none]
      simp [State.passed, State.step, State.plain, hnone, State.item]
    rw [hletter, if_neg (by decide)]
    refine (scan_cons hstep).trans ?_
    rw [List.append_cons]
    exact scan_passed (List.all_eq_true.mp (hordinary _ hname))

/-! ## Classes -/

/-- Whether a character inside of a class is passed over by itself. -/
def isInner (c : Char) : Bool := !"\\[]".toList.contains c

/-- The scanner in a class with so many brackets open besides its own. -/
def State.inClass (t : State) (depth : Nat) : State := { t with mode := .inClass depth }

lemma scan_inClass (h : ∀ c ∈ text, isInner c) (depth : Nat) :
    scan (t.inClass depth) (text ++ after) = scan (t.inClass depth) after := by
  induction text with
  | nil => rfl
  | cons c text ih =>
    obtain ⟨hc, htext⟩ := List.forall_mem_cons.mp h
    have hstep : (t.inClass depth).step c (text ++ after) = .ok (t.inClass depth) := by
      simp only [State.inClass, State.step, State.classChar]
      split
      · simp [isInner] at hc
      · simp [isInner] at hc
      · simp [isInner] at hc
      · rfl
    rw [List.cons_append, scan_cons hstep]
    exact ih htext

lemma isInner_of_isOrdinary (hc : isOrdinary c) (hbracket : c ≠ ']') : isInner c := by
  by_contra h
  have hspecial : c = '\\' ∨ c = '[' ∨ c = ']' := by
    simpa [isInner, or_iff_not_imp_left] using h
  obtain rfl | rfl | rfl := hspecial
  · exact absurd hc (by decide)
  · exact absurd hc (by decide)
  · exact hbracket rfl

/-- Behind its first character an escape has nothing special to a class. -/
lemma exists_of_escapeText (h : Reader.EscapeText after cs) :
    ∃ c text, cs = c :: (text ++ after) ∧ ∀ d ∈ text, isInner d := by
  have hhex : ∀ {digits}, Reader.IsHex digits → ∀ d ∈ digits, isInner d := by
    intro digits hdigits d hd
    refine isInner_of_isOrdinary (isOrdinary_of_hexValue? (hdigits d hd)) ?_
    rintro rfl
    exact absurd (hdigits _ hd) (by decide)
  cases h with
  | @char c => exact ⟨c, [], rfl, fun _ hd => absurd hd List.not_mem_nil⟩
  | @braces c digits hc hdigits =>
    refine ⟨c, '{' :: (digits ++ ['}']), by simp, ?_⟩
    rw [List.forall_mem_cons, List.forall_mem_append, List.forall_mem_singleton]
    exact ⟨rfl, hhex hdigits, rfl⟩
  | @digits c digits hc hdigits => exact ⟨c, digits, rfl, hhex hdigits⟩
  | @boundary l name hname =>
    have hinner : ∀ x ∈ Reader.boundaries, ('{' :: (x.1.toList ++ ['}'])).all isInner := by
      decide
    exact ⟨'b', '{' :: (name.toList ++ ['}']), by simp, List.all_eq_true.mp (hinner _ hname)⟩

/-- An escape in a class is passed over. -/
lemma scan_classEscape (h : Reader.EscapeText after cs) :
    scan (t.inClass 0) ('\\' :: cs) = scan (t.inClass 0) after := by
  obtain ⟨c, text, rfl, htext⟩ := exists_of_escapeText h
  refine (scan_cons (u := { t with mode := .classEscape 0 }) rfl).trans ?_
  refine (scan_cons (u := t.inClass 0) rfl).trans ?_
  exact scan_inClass htext 0

/-- A set that has a name is passed over: the brackets around the name are counted. -/
lemma scan_classNamed {sign : List Char} {name : String} (hsign : sign = [] ∨ sign = ['^'])
    (hname : name ∈ CharSet.named.map Prod.fst) :
    scan (t.inClass 0) ('[' :: ':' :: (sign ++ (name.toList ++ ':' :: ']' :: after))) =
      scan (t.inClass 0) after := by
  set front := ':' :: (sign ++ (name.toList ++ [':'])) with hfront
  have hcs : '[' :: ':' :: (sign ++ (name.toList ++ ':' :: ']' :: after)) =
      '[' :: (front ++ ']' :: after) := by simp [hfront]
  have hinner : ∀ c ∈ front, isInner c := by
    have hsigned : ∀ c ∈ sign, isInner c := by
      rcases hsign with rfl | rfl <;> simp [isInner]
    have hnames : ∀ name ∈ CharSet.named.map Prod.fst, name.toList.all isInner := by decide
    rw [hfront, List.forall_mem_cons, List.forall_mem_append, List.forall_mem_append,
      List.forall_mem_singleton]
    exact ⟨rfl, hsigned, List.all_eq_true.mp (hnames _ hname), rfl⟩
  rw [hcs, scan_cons (u := t.inClass 1) rfl, scan_inClass hinner]
  exact scan_cons rfl

section

variable {f : Reader.Flags} {p : Pattern} {rest : List Char}

/-- An item of a class that does not begin with a bracket is passed over. -/
lemma scan_classItem (hquiet : f.Quiet cs) (h : Reader.classItem? f cs = some (p, rest)) :
    ∃ c text, cs = c :: (text ++ rest) ∧
      (c ≠ '[' → c ≠ ']' → ∀ t : State, scan (t.inClass 0) cs = scan (t.inClass 0) rest) := by
  rcases Reader.classItem?_eq_some hquiet h with ⟨c, hc, rfl⟩ | ⟨inner, rfl, hescape⟩
  · refine ⟨c, [], rfl, fun hopen hclose t => ?_⟩
    have hinner : ∀ d ∈ [c], isInner d := by simp [isInner, hc, hopen, hclose]
    exact scan_inClass hinner 0
  · obtain ⟨c, text, rfl, -⟩ := exists_of_escapeText hescape
    exact ⟨'\\', c :: text, rfl, fun _ _ t => scan_classEscape hescape⟩

/-- The items of a class are passed over together with its closing bracket, if no hyphen stands
before an opening one. -/
lemma scan_classItems {steps : Nat} {items found : List CodeRange} (hquiet : f.Quiet cs)
    (h : Reader.classItems? f steps items cs = some (found, after)) :
    ∃ text, cs = text ++ after ∧
      (¬ ['-', '['] <:+: text → ∀ t : State, scan (t.inClass 0) cs = scan t.atItem after) := by
  induction steps generalizing items cs with
  | zero => simp [Reader.classItems?] at h
  | succ steps ih =>
    rw [Reader.classItems?, hquiet.skip_eq] at h
    split at h
    · simp at h
    · obtain ⟨-, rfl⟩ := Prod.mk.inj (Option.some.inj h)
      exact ⟨[']'], rfl, fun _ t => scan_cons rfl⟩
    · next rest =>
      split at h
      · next set behind hnamed =>
        obtain ⟨sign, name, hsign, ⟨set, hname⟩, rfl⟩ := Reader.namedClass?_eq_some hnamed
        set front := '[' :: ':' :: (sign ++ (name.toList ++ [':', ']'])) with hfront
        have hcs : '[' :: ':' :: (sign ++ (name.toList ++ ':' :: ']' :: behind)) =
            front ++ behind := by simp [hfront]
        have hquiet' : f.Quiet behind := hquiet.of_suffix ⟨front, hcs.symm⟩
        obtain ⟨text, rfl, htext⟩ := ih hquiet' h
        refine ⟨front ++ text, by simp [hfront], fun hranges t => ?_⟩
        have hsuffix : text <:+: front ++ text := ⟨front, [], by simp⟩
        rw [scan_classNamed hsign (List.mem_map.mpr ⟨_, hname, rfl⟩)]
        exact htext (fun hoccurs => hranges (hoccurs.trans hsuffix)) t
      · simp at h
    · simp at h
    · simp at h
    · simp at h
    · next hnil hclose hopen _ _ _ =>
      split at h
      · next more behind hrange =>
        obtain ⟨first, rest, hfirst, hbehind⟩ := Reader.classRange?_eq_some hrange
        obtain ⟨c, text, rfl, hitem⟩ := scan_classItem hquiet hfirst
        have hskip := hitem (fun hc => hopen _ (by rw [hc])) (fun hc => hclose _ (by rw [hc]))
        have hrest : f.Quiet rest := hquiet.of_suffix ⟨c :: text, by simp⟩
        rw [hrest.skip_eq] at hbehind
        rcases hbehind with rfl | ⟨inner, last, rfl, hpeek, hlast⟩
        · obtain ⟨text', rfl, htext'⟩ := ih hrest h
          refine ⟨c :: (text ++ text'), by simp, fun hranges t => (hskip t).trans ?_⟩
          exact htext' (fun hoccurs => hranges (hoccurs.trans ⟨c :: text, [], by simp⟩)) t
        · rw [hrest.tail.skip_eq] at hlast
          rw [Reader.peek_eq_head? hrest.tail] at hpeek
          obtain ⟨d, text₂, rfl, hitem₂⟩ := scan_classItem hrest.tail hlast
          have hbehind : f.Quiet behind := hrest.of_suffix ⟨'-' :: d :: text₂, by simp⟩
          obtain ⟨text', rfl, htext'⟩ := ih hbehind h
          refine ⟨c :: (text ++ '-' :: d :: (text₂ ++ text')), by simp, fun hranges t => ?_⟩
          have hopen : d ≠ '[' := by
            rintro rfl
            exact hranges ⟨c :: text, text₂ ++ text', by simp⟩
          have hclose : d ≠ ']' := by simpa using hpeek
          have hhyphen : ∀ e ∈ ['-'], isInner e := by simp [isInner]
          have hsuffix : text' <:+: c :: (text ++ '-' :: d :: (text₂ ++ text')) :=
            ⟨c :: (text ++ '-' :: d :: text₂), [], by simp⟩
          refine (hskip t).trans ((scan_inClass hhyphen 0).trans ?_)
          refine (hitem₂ hopen hclose t).trans ?_
          exact htext' (fun hoccurs => hranges (hoccurs.trans hsuffix)) t
      · simp at h

/-- The first character of a class is read like any other one, unless it is a closing bracket. -/
lemma scan_classFirst (hc : c ≠ ']') :
    scan { t with mode := .classFirst } (c :: cs) = scan (t.inClass 0) (c :: cs) := by
  have hstep : State.step { t with mode := .classFirst } c cs = (t.inClass 0).step c cs := by
    simp [State.step, State.inClass, hc, State.classChar]
  rw [scan, scan, hstep]

lemma scan_classStart (hc : cs.head? ≠ some '^') :
    scan { t with mode := .classStart } cs = scan { t with mode := .classFirst } cs := by
  cases cs with
  | nil => rfl
  | cons c cs =>
    have hc : c ≠ '^' := by simpa using hc
    have hstep : State.step { t with mode := .classStart } c cs =
        State.step { t with mode := .classFirst } c cs := by
      simp only [State.step, hc, if_false]
      split <;> rfl
    rw [scan, scan, hstep]

lemma scan_startsItems {start : List Char} (hquiet : f.Quiet rest) (h : f.StartsItems rest start) :
    ∃ text, rest = text ++ start ∧
      ∀ t : State, scan { t with mode := .classFirst } rest = scan (t.inClass 0) start := by
  rcases h with ⟨c, inner, hhyphens, rfl⟩ | ⟨inner, rfl, rfl⟩ | ⟨rfl, hclose⟩
  · obtain ⟨front, hfront⟩ := List.getLast?_eq_some_iff.mp hhyphens
    have hsplit : f.significant rest =
        front ++ (c, inner) :: (f.significant rest).dropWhile (·.1 == '-') := by
      rw [List.append_cons, ← hfront, List.takeWhile_append_dropWhile]
    have hrest := hquiet.eq_of_significant hsplit
    have hhyphen : ∀ d ∈ front.map Prod.fst ++ [c], d = '-' := by
      have hmap : front.map Prod.fst ++ [c] =
          ((f.significant rest).takeWhile (·.1 == '-')).map Prod.fst := by simp [hfront]
      rw [hmap]
      refine List.forall_mem_map.mpr fun x hx => ?_
      exact eq_of_beq (List.mem_takeWhile_imp (p := fun x : Char × List Char => x.1 == '-') hx)
    have hinner : f.Quiet inner := hquiet.of_suffix ⟨front.map Prod.fst ++ [c], by simp [hrest]⟩
    rw [hinner.skip_eq]
    refine ⟨front.map Prod.fst ++ [c], by simp [hrest], fun t => ?_⟩
    rw [hrest, List.append_cons]
    have hne : front.map Prod.fst ++ [c] ≠ [] := by simp
    obtain ⟨d, ds, hds⟩ := List.exists_cons_of_ne_nil hne
    rw [hds] at hhyphen ⊢
    have hd : d ≠ ']' := by
      rw [hhyphen d List.mem_cons_self]
      decide
    have hall : ∀ e ∈ d :: ds, isInner e := fun e he => by rw [hhyphen e he]; rfl
    rw [List.cons_append, scan_classFirst hd]
    exact scan_inClass hall 0
  · rw [hquiet.tail.skip_eq]
    exact ⟨[']'], rfl, fun t => scan_cons rfl⟩
  · refine ⟨[], rfl, fun t => ?_⟩
    cases start with
    | nil => rfl
    | cons c cs => exact scan_classFirst (by simpa using hclose)

/-- A class is passed over, if no hyphen in it stands before an opening bracket. -/
lemma scan_class (hquiet : f.Quiet cs) (h : Reader.class? f cs = some (p, after)) :
    ∃ text, cs = text ++ after ∧ (¬ ['-', '['] <:+: text →
      ∀ t : State, t.mode = .plain → scan t ('[' :: cs) = scan t.passed after) := by
  obtain ⟨rest, start, items, found, set, hopens, hstarts, hitems, -⟩ := Reader.class?_eq_some h
  have hsign : ∃ sign, cs = sign ++ rest ∧ ∀ t : State,
      scan { t with mode := .classStart } cs = scan { t with mode := .classFirst } rest := by
    rw [Reader.Flags.OpensClass, hquiet.skip_eq] at hopens
    rcases hopens with ⟨rfl, hhead⟩ | ⟨inner, rfl, rfl⟩
    · exact ⟨[], rfl, fun t => scan_classStart hhead⟩
    · rw [hquiet.tail.skip_eq]
      exact ⟨['^'], rfl, fun t => scan_cons rfl⟩
  obtain ⟨sign, rfl, hsign⟩ := hsign
  have hrest : f.Quiet rest := hquiet.of_suffix (List.suffix_append sign rest)
  obtain ⟨front, rfl, hfront⟩ := scan_startsItems hrest hstarts
  have hstart : f.Quiet start := hrest.of_suffix (List.suffix_append front start)
  obtain ⟨text, rfl, htext⟩ := scan_classItems hstart hitems
  refine ⟨sign ++ (front ++ text), by simp, fun hranges t hmode => ?_⟩
  have hopen : scan t ('[' :: (sign ++ (front ++ (text ++ after)))) =
      scan { t.passed with mode := .classStart } (sign ++ (front ++ (text ++ after))) := by
    refine scan_cons ?_
    rw [State.step, hmode]
    rfl
  have hsuffix : text <:+: sign ++ (front ++ text) := ⟨sign ++ front, [], by simp⟩
  refine (hopen.trans (hsign _)).trans ((hfront _).trans ?_)
  exact htext (fun hoccurs => hranges (hoccurs.trans hsuffix)) _

end

/-! ## Groups -/

/-- The scanner behind an opening parenthesis. -/
def State.opened (t : State) : State := { t.passed with body := {}, around := t.body :: t.around }

/-- The scanner behind a closing parenthesis. -/
def State.closedBy (t : State) (parent : Body) (around : List Body) : State :=
  { mode := .plain
    body := ⟨parent.unbounded || t.body.unbounded, parent.alternation || t.body.alternation⟩
    around
    closed := some t.body }

lemma scan_close {parent : Body} {around : List Body} (hmode : t.mode = .plain)
    (haround : t.around = parent :: around) :
    scan t (')' :: cs) = scan (t.closedBy parent around) cs := by
  refine scan_cons ?_
  rw [State.step, hmode]
  simp [State.plain, State.item, haround, State.closedBy]

lemma scan_bar (hmode : t.mode = .plain) : scan t ('|' :: cs) =
    scan { t.passed with body := { t.body with alternation := true } } cs := by
  refine scan_cons ?_
  rw [State.step, hmode]
  rfl

lemma scan_open (hmode : t.mode = .plain) :
    scan t ('(' :: cs) = scan { t.opened with mode := .groupStart } cs := by
  refine scan_cons ?_
  rw [State.step, hmode]
  rfl

lemma scan_groupStart (hc : cs.head? ≠ some '?') :
    scan { t with mode := .groupStart } cs = scan t.atItem cs := by
  cases cs with
  | nil => rfl
  | cons c cs =>
    have hc : c ≠ '?' := by simpa using hc
    rw [scan, scan, State.step, State.step, if_neg hc]
    rfl

lemma scan_groupFlags (h : Reader.IsInert text) :
    scan { t with mode := .groupFlags } (text ++ after) =
      scan { t with mode := .groupFlags } after := by
  induction text with
  | nil => rfl
  | cons c text ih =>
    obtain ⟨⟨hcolon, hangle, hclose⟩, htext⟩ := List.forall_mem_cons.mp h
    refine (scan_cons (u := { t with mode := .groupFlags }) ?_).trans (ih htext)
    simp [State.step, hcolon, hangle, hclose]

lemma scan_opensWith {sign : Char} (h : Reader.OpensWith sign cs after) :
    scan { t with mode := .groupStart } cs =
      scan { t with mode := .groupFlags } (sign :: after) := by
  obtain ⟨names, hnames, rfl⟩ := h
  exact (scan_cons rfl).trans (scan_groupFlags hnames)

lemma scan_group {s s' : Reader.State} (hquiet : s.flags.Quiet cs)
    (h : Reader.group? s cs = some (s', after)) (hmode : t.mode = .plain) :
    ((∃ flags, s' = { s with flags }) ∧
        scan t ('(' :: cs) = scan { t.passed with closed := some {} } after) ∨
      Reader.Opens s s' ∧ scan t ('(' :: cs) = scan t.opened after := by
  have hcases := Reader.group?_eq_some h
  rw [hquiet.skip_eq] at hcases
  rw [scan_open hmode]
  rcases hcases with ⟨hflags, hclose⟩ | ⟨hopens, hcolon | hangle | ⟨rfl, hquestion⟩⟩
  · refine .inl ⟨hflags, (scan_opensWith hclose).trans (scan_cons ?_)⟩
    simp [State.step, State.plain, State.item, State.opened, State.passed]
  · exact .inr ⟨hopens, (scan_opensWith hcolon).trans (scan_cons rfl)⟩
  · exact .inr ⟨hopens, (scan_opensWith hangle).trans (scan_cons rfl)⟩
  · exact .inr ⟨hopens, scan_groupStart hquestion⟩

/-! ## Repetitions -/

/-- The scanner behind a repetition. -/
def State.repeated (t : State) (n : Count) : State :=
  { t.passed with body := { t.body with unbounded := t.body.unbounded || n == .unbounded } }

lemma scan_repeatLast {n : Count} {mode : Mode}
    (hstep : t.step c cs = t.repeatLast n mode) (h : scan t (c :: cs) = none) :
    t.closed.bind n.danger? = none ∧ scan { t.repeated n with mode } cs = none := by
  rw [scan, hstep] at h
  unfold State.repeatLast at h
  cases hdanger : t.closed.bind n.danger? with
  | some d => simp [hdanger] at h
  | none =>
    simp only [hdanger] at h
    exact ⟨rfl, h⟩

/-- Behind a repetition a question mark says nothing about the shape. -/
lemma scan_skipReluctant (n : Count) :
    scan (t.repeated n) (Reader.skipReluctant cs) = scan (t.repeated n) cs := by
  unfold Reader.skipReluctant
  split
  · next cs =>
    refine (scan_cons ?_).symm
    simp [State.step, State.plain, State.repeatLast, State.repeated, State.passed]
  · rfl

lemma scan_skipping {n : Nat} (hn : 1 ≤ n) :
    scan { t with mode := .skipping n } cs = scan t.atItem (cs.drop n) := by
  induction cs generalizing n with
  | nil => simp [scan]
  | cons c cs ih =>
    by_cases hone : n ≤ 1
    · obtain rfl : n = 1 := by omega
      exact scan_cons rfl
    · have hstep : State.step { t with mode := .skipping n } c cs =
          .ok { t with mode := .skipping (n - 1) } := by simp [State.step, hone]
      rw [scan_cons hstep, ih (by omega)]
      obtain ⟨m, rfl⟩ : ∃ m, n = m + 1 := ⟨n - 1, by omega⟩
      rfl

/-- The text of a number has nothing in it that ends a bound. -/
lemma notMem_of_number (h : ∀ c ∈ text, Text.isBlank c ∨ c.isDigit) : '}' ∉ text ∧ ',' ∉ text :=
  ⟨fun hmem => absurd (h _ hmem) (by decide), fun hmem => absurd (h _ hmem) (by decide)⟩

lemma countOf?_exact {n : Nat} (hcomma : ',' ∉ text) (h : number? text = some n) :
    countOf? text = some .few := by
  have hleast : text.takeWhile (· != ',') = text :=
    List.takeWhile_eq_self_iff.mpr fun c hc => bne_iff_ne.mpr (ne_of_mem_of_not_mem hc hcomma)
  simp [countOf?, hleast, h]

lemma countOf?_range {n : Nat} {most : List Char} (hcomma : ',' ∉ text)
    (h : number? text = some n) :
    countOf? (text ++ ',' :: most) =
      if (Text.stripWhile Text.isBlank most).isEmpty then some .unbounded
      else (number? most).map fun n => if n ≤ 1 then .few else .counted := by
  have hleast : (text ++ ',' :: most).takeWhile (· != ',') = text := by
    rw [List.takeWhile_append_of_pos fun c hc => bne_iff_ne.mpr (ne_of_mem_of_not_mem hc hcomma)]
    simp
  simp [countOf?, hleast, h]

/-- The bounds that the reader finds are those that the scanner finds. -/
lemma counted?_of_bounds? {f : Reader.Flags} {least : Nat} {most : Option Nat}
    (hquiet : f.Quiet cs) (h : Reader.bounds? f cs = some (least, most, after)) :
    ∃ length, counted? cs = some (.of (Reader.isExact f cs) most, length) ∧ 1 ≤ length ∧
      cs.drop length = after := by
  have hclosed : ∀ {body : List Char} {n : Count}, '}' ∉ body → countOf? body = some n →
      ∃ length, counted? (body ++ '}' :: after) = some (n, length) ∧ 1 ≤ length ∧
        (body ++ '}' :: after).drop length = after := by
    intro body n hbody hn
    refine ⟨body.length + 1, by rw [counted?_eq hbody, hn, Option.map_some], by omega, ?_⟩
    rw [List.append_cons]
    exact List.drop_left' (by simp)
  unfold Reader.bounds? at h
  rw [hquiet.skip_eq] at h
  simp only [Option.bind_eq_bind, Option.bind_eq_some_iff] at h
  obtain ⟨⟨n, behind⟩, hn, h⟩ := h
  obtain ⟨text, rfl, htext, hnumber⟩ := Reader.decimal?_eq_some hquiet hn
  have hbehind : f.Quiet behind := hquiet.of_suffix (List.suffix_append text behind)
  obtain ⟨hbrace, hcomma⟩ := notMem_of_number htext
  have hexact : Reader.isExact f (text ++ behind) = (behind.head? == some '}') := by
    rw [Reader.isExact, hquiet.skip_eq, hn, Option.any_some]
  rw [hexact]
  split at h
  · next n' behind' hpair =>
    obtain ⟨rfl, rfl⟩ := Prod.mk.inj hpair
    obtain ⟨rfl, hmost⟩ := Prod.mk.inj (Option.some.inj h)
    obtain ⟨rfl, rfl⟩ := Prod.mk.inj hmost
    simpa [Count.of] using hclosed hbrace (countOf?_exact hcomma hnumber)
  · next n' rest hpair =>
    obtain ⟨rfl, rfl⟩ := Prod.mk.inj hpair
    have hrest : f.Quiet rest := hbehind.tail
    rw [hrest.skip_eq] at h
    split at h
    · next behind =>
      obtain ⟨rfl, hmost⟩ := Prod.mk.inj (Option.some.inj h)
      obtain ⟨rfl, rfl⟩ := Prod.mk.inj hmost
      have hbody : '}' ∉ text ++ [','] := by simpa using hbrace
      have hcount := hclosed hbody ((countOf?_range hcomma hnumber).trans (if_pos rfl))
      simpa [Count.of] using hcount
    · obtain ⟨⟨m, behind⟩, hm, hrange⟩ := Option.bind_eq_some_iff.mp h
      obtain ⟨text', rfl, htext', hnumber'⟩ := Reader.decimal?_eq_some hrest hm
      obtain ⟨hbrace', -⟩ := notMem_of_number htext'
      split at hrange
      · next m' behind' hpair =>
        obtain ⟨rfl, rfl⟩ := Prod.mk.inj hpair
        split at hrange
        · obtain ⟨rfl, hmost⟩ := Prod.mk.inj (Option.some.inj hrange)
          obtain ⟨rfl, rfl⟩ := Prod.mk.inj hmost
          have hbody : '}' ∉ text ++ ',' :: text' := by simpa using ⟨hbrace, hbrace'⟩
          have hblank : ¬ (Text.stripWhile Text.isBlank text').isEmpty := by
            intro hempty
            simp [number?, List.isEmpty_iff.mp hempty] at hnumber'
          have hcount : countOf? (text ++ ',' :: text') =
              some (if m ≤ 1 then .few else .counted) := by
            rw [countOf?_range hcomma hnumber, if_neg hblank, hnumber', Option.map_some]
          simpa [Count.of] using hclosed hbody hcount
        · simp at hrange
      · simp at hrange
  · simp at h

end Shape

end Pattern

end EntityFilter
