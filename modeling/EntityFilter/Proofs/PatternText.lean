import EntityFilter.Pattern.Reader
import EntityFilter.Pattern.Shape
import Mathlib.Data.List.Infix
import Mathlib.Data.List.TakeWhile

/-!
# The text of an item

Which characters the reader takes for one item of a pattern: an escape, a class, the beginning of a
group or the bounds of a repetition.  As long as no blanks and comments are left out
(`Flags.Quiet`), every item is a run of characters in the text, and for most of them it is enough to
know which characters do not occur in it.
-/

namespace EntityFilter

namespace Pattern.Reader

variable {f f' : Flags} {s s' : State} {p : Pattern} {c : Char} {cs rest after : List Char}

/-! ## Texts without blanks -/

/-- There is nothing that the verbose flag leaves out. -/
def Flags.Quiet (f : Flags) (cs : List Char) : Prop :=
  f.verbose → ∀ c ∈ cs, Text.isBlank c = false ∧ c ≠ '#'

namespace Flags.Quiet

lemma of_suffix (h : f.Quiet cs) (hs : rest <:+ cs) : f.Quiet rest :=
  fun hv c hc => h hv c (hs.subset hc)

lemma tail (h : f.Quiet (c :: cs)) : f.Quiet cs := h.of_suffix (List.suffix_cons c cs)

lemma skip_eq (h : f.Quiet cs) : f.skip cs = cs := by
  unfold Flags.skip
  split
  · next hv =>
    cases cs with
    | nil => rfl
    | cons c cs =>
      have hc := h hv c List.mem_cons_self
      rw [skipBlanks, if_neg (by simp [hc.1]), if_neg hc.2]
  · rfl

lemma significant_cons (h : f.Quiet (c :: cs)) :
    f.significant (c :: cs) = (c, cs) :: f.significant cs := by
  unfold Flags.significant
  by_cases hv : f.verbose
  · have hc := h hv c List.mem_cons_self
    rw [Reader.significant, if_neg (by simp [hc.1]), if_neg (by simp [hc.2])]
  · rw [Reader.significant, if_neg (by simp [hv]), if_neg (by simp [hv])]

/-- The characters that count are all characters, and behind each of them stands what follows. -/
lemma eq_of_significant (h : f.Quiet cs) {front back : List (Char × List Char)}
    (heq : f.significant cs = front ++ (c, rest) :: back) :
    cs = front.map Prod.fst ++ c :: rest := by
  induction cs generalizing front with
  | nil =>
    have hnil : f.significant [] = [] := by simp [Flags.significant, Reader.significant]
    simp [hnil] at heq
  | cons d ds ih =>
    rw [h.significant_cons] at heq
    cases front with
    | nil =>
      obtain ⟨hd, -⟩ := List.cons.inj heq
      obtain ⟨rfl, rfl⟩ := Prod.mk.inj hd
      rfl
    | cons x front =>
      obtain ⟨rfl, htail⟩ := List.cons.inj heq
      exact congrArg (List.cons d) (ih h.tail htail)

end Flags.Quiet

/-! ## Escapes -/

/-- Hexadecimal digits. -/
def IsHex (digits : List Char) : Prop := ∀ c ∈ digits, (Text.hexValue? c).isSome

lemma isHex_of_codePoint? (h : Text.codePoint? cs = some c) : IsHex cs := by
  obtain ⟨n, hn, -⟩ := Option.bind_eq_some_iff.mp h
  have hfold : ∀ (cs : List Char) (n m : Nat),
      cs.foldlM (fun n c => (Text.hexValue? c).map (n * 16 + ·)) n = some m → IsHex cs := by
    intro cs
    induction cs with
    | nil => exact fun _ _ _ c hc => absurd hc List.not_mem_nil
    | cons c cs ih =>
      intro n m hm
      rw [List.foldlM_cons, Option.bind_eq_bind, Option.bind_eq_some_iff] at hm
      obtain ⟨k, hk, hm⟩ := hm
      obtain ⟨v, hv, -⟩ := Option.map_eq_some_iff.mp hk
      exact List.forall_mem_cons.mpr ⟨by simp [hv], ih k m hm⟩
  cases cs with
  | nil => simp [Text.hexNumber?] at hn
  | cons d ds => exact hfold _ _ _ hn

/-- A code point stands between braces, or is so many digits. -/
lemma hex?_eq_some {width : Nat} (hquiet : f.Quiet cs) (h : hex? f width cs = some (p, after)) :
    ∃ digits, IsHex digits ∧
      (cs = '{' :: (digits ++ '}' :: after) ∨ cs = digits ++ after ∧ digits ≠ []) := by
  unfold hex? at h
  split at h
  · next rest inner hcharacters =>
    dsimp only at h
    split at h
    · next behind closing hclosing =>
      obtain ⟨_, hcode, hp⟩ := Option.map_eq_some_iff.mp h
      obtain ⟨-, rfl⟩ := Prod.mk.inj hp
      refine ⟨_, isHex_of_codePoint? hcode, .inl ?_⟩
      have hinner : f.significant cs =
          ('{', rest) :: inner.takeWhile (·.1 != '}') ++ ('}', behind) :: closing := by
        rw [hcharacters, ← hclosing, List.cons_append,
          ← List.prefix_append_drop (List.takeWhile_prefix _)]
      exact hquiet.eq_of_significant hinner
    · simp at h
  · dsimp only at h
    split at h
    · simp only [Option.bind_eq_bind, Option.bind_eq_some_iff, Option.pure_def,
        Option.some.injEq] at h
      obtain ⟨⟨d, rest⟩, hlast, _, hcode, hp⟩ := h
      obtain ⟨-, rfl⟩ := Prod.mk.inj hp
      refine ⟨_, isHex_of_codePoint? hcode, .inr ?_⟩
      obtain ⟨front, hfront⟩ := List.getLast?_eq_some_iff.mp hlast
      have hall : f.significant cs = front ++ (d, rest) :: (f.significant cs).drop width := by
        rw [List.append_cons, ← hfront, List.take_append_drop]
      rw [hfront, hquiet.eq_of_significant hall]
      simp
    · simp at h

/-- A word boundary is its letter, or has a name between braces. -/
lemma boundary?_eq_some (hquiet : f.Quiet cs) (h : boundary? f cs = some (p, after)) :
    after = cs ∨
      ∃ name l, (name, l) ∈ boundaries ∧ cs = '{' :: (name.toList ++ '}' :: after) := by
  unfold boundary? at h
  split at h
  · next rest =>
    split at h
    · simp at h
    · dsimp only at h
      split at h
      · exact .inl (Prod.mk.inj (Option.some.inj h)).2.symm
      · split at h
        · next behind closing hclosing =>
          obtain ⟨l, hl, hp⟩ := Option.map_eq_some_iff.mp h
          obtain ⟨rfl, rfl⟩ := Prod.mk.inj hp
          obtain ⟨front, back, hboundaries, -⟩ := List.lookup_eq_some_iff.mp hl
          have hmem : (_, l) ∈ boundaries := hboundaries ▸ List.mem_append_cons_self
          refine .inr ⟨_, l, hmem, ?_⟩
          have hall : f.significant rest = (f.significant rest).takeWhile (isBoundaryChar ·.1) ++
              ('}', behind) :: closing := by
            rw [← hclosing, ← List.prefix_append_drop (List.takeWhile_prefix _)]
          rw [String.toList_ofList]
          exact congrArg (List.cons '{') (hquiet.tail.eq_of_significant hall)
        · simp at h
  · exact .inl (Prod.mk.inj (Option.some.inj h)).2.symm

/-- Whether braces may follow an escape. -/
def opensBraces (c : Char) : Bool := "pPxuU".toList.contains c

/-- What an escape is: one character, a code point or the name of a word boundary. -/
inductive EscapeText (after : List Char) : List Char → Prop
  | char {c : Char} (h : opensBraces c = false) : EscapeText after (c :: after)
  | braces {c : Char} {digits : List Char} (h : opensBraces c) (hhex : IsHex digits) :
    EscapeText after (c :: '{' :: (digits ++ '}' :: after))
  | digits {c : Char} {digits : List Char} (h : opensBraces c) (hhex : IsHex digits)
    (hne : digits ≠ []) : EscapeText after (c :: (digits ++ after))
  | boundary {l : LookAround} {name : String} (h : (name, l) ∈ boundaries) :
    EscapeText after ('b' :: '{' :: (name.toList ++ '}' :: after))

lemma EscapeText.of_hex? {width : Nat} (hquiet : f.Quiet cs) (hc : opensBraces c)
    (h : hex? f width cs = some (p, after)) : EscapeText after (c :: cs) := by
  obtain ⟨digits, hhex, rfl | ⟨rfl, hne⟩⟩ := hex?_eq_some hquiet h
  · exact .braces hc hhex
  · exact .digits hc hhex hne

lemma EscapeText.of_escape? (hquiet : f.Quiet cs) (h : escape? f cs = some (p, after)) :
    EscapeText after cs := by
  unfold escape? at h
  split at h
  · simp at h
  · exact .of_hex? hquiet.tail rfl h
  · exact .of_hex? hquiet.tail rfl h
  · exact .of_hex? hquiet.tail rfl h
  · rcases boundary?_eq_some hquiet.tail h with rfl | ⟨name, l, hname, rfl⟩
    · exact .char rfl
    · exact .boundary hname
  · next c rest hx hu hU _ =>
    have hclosed : c ≠ 'p' → c ≠ 'P' → opensBraces c = false := by
      intro hp hP
      have hx : c ≠ 'x' := hx
      have hu : c ≠ 'u' := hu
      have hU : c ≠ 'U' := hU
      simp [opensBraces, hp, hP, hx, hu, hU]
    split at h
    · next hescapable =>
      obtain ⟨-, rfl⟩ := Prod.mk.inj (Option.some.inj h)
      refine .char (hclosed ?_ ?_)
      · rintro rfl
        simp [isEscapable] at hescapable
      · rintro rfl
        simp [isEscapable] at hescapable
    · obtain ⟨q, hq, hqp⟩ := Option.map_eq_some_iff.mp h
      obtain ⟨-, rfl⟩ := Prod.mk.inj hqp
      refine .char (hclosed ?_ ?_)
      · rintro rfl
        simp [escapeLetter?] at hq
      · rintro rfl
        simp [escapeLetter?] at hq

/-! ## Classes -/

/-- Where a class begins behind its opening bracket: behind the sign of the complement, if there is
one. -/
def Flags.OpensClass (f : Flags) (cs rest : List Char) : Prop :=
  (f.skip cs = rest ∧ rest.head? ≠ some '^') ∨
    ∃ inner, f.skip cs = '^' :: inner ∧ rest = f.skip inner

/-- Where the items of a class begin: behind hyphens, behind a closing bracket that stands for
itself, or at once. -/
def Flags.StartsItems (f : Flags) (cs rest : List Char) : Prop :=
  (∃ c inner, ((f.significant cs).takeWhile (·.1 == '-')).getLast? = some (c, inner) ∧
      rest = f.skip inner) ∨
    (∃ inner, cs = ']' :: inner ∧ rest = f.skip inner) ∨ (rest = cs ∧ cs.head? ≠ some ']')

lemma class?_eq_some (h : class? f cs = some (p, after)) :
    ∃ rest start items found set, f.OpensClass cs rest ∧ f.StartsItems rest start ∧
      classItems? f (start.length + 1) items start = some (found, after) ∧ p = .oneOf set := by
  unfold class? at h
  split at h
  next _ negated rest hmatch =>
  have hopens : f.OpensClass cs rest := by
    split at hmatch
    · next inner hcs => exact .inr ⟨inner, hcs, (Prod.mk.inj hmatch).2.symm⟩
    · next hcs =>
      refine .inl ⟨(Prod.mk.inj hmatch).2, fun hhead => ?_⟩
      obtain ⟨inner, rfl⟩ := List.head?_eq_some_iff.mp hhead
      exact hcs inner (Prod.mk.inj hmatch).2
  simp only [Option.bind_eq_bind, Option.bind_some, Option.pure_def] at h
  split at h
  · next c inner hlast =>
    obtain ⟨⟨found, behind⟩, hitems, hp⟩ := Option.bind_eq_some_iff.mp h
    obtain ⟨rfl, rfl⟩ := Prod.mk.inj (Option.some.inj hp)
    exact ⟨_, _, _, _, _, hopens, .inl ⟨_, _, hlast, rfl⟩, hitems, rfl⟩
  · obtain ⟨⟨found, behind⟩, hitems, hp⟩ := Option.bind_eq_some_iff.mp h
    obtain ⟨rfl, rfl⟩ := Prod.mk.inj (Option.some.inj hp)
    exact ⟨_, _, _, _, _, hopens, .inr (.inl ⟨_, rfl, rfl⟩), hitems, rfl⟩
  · next hbracket _ =>
    obtain ⟨⟨found, behind⟩, hitems, hp⟩ := Option.bind_eq_some_iff.mp h
    obtain ⟨rfl, rfl⟩ := Prod.mk.inj (Option.some.inj hp)
    refine ⟨_, _, _, _, _, hopens, .inr (.inr ⟨rfl, fun hhead => ?_⟩), hitems, rfl⟩
    obtain ⟨inner, rfl⟩ := List.head?_eq_some_iff.mp hhead
    exact hbracket inner rfl

/-- An item of a class is a character or an escape. -/
lemma classItem?_eq_some (hquiet : f.Quiet cs) (h : classItem? f cs = some (p, rest)) :
    (∃ c, c ≠ '\\' ∧ cs = c :: rest) ∨ ∃ inner, cs = '\\' :: inner ∧ EscapeText rest inner := by
  unfold classItem? at h
  split at h
  · simp at h
  · exact .inr ⟨_, rfl, .of_escape? hquiet.tail h⟩
  · next c inner hc =>
    obtain ⟨-, rfl⟩ := Prod.mk.inj (Option.some.inj h)
    exact .inl ⟨c, hc, rfl⟩

lemma peek_eq_head? (hquiet : f.Quiet cs) : peek f cs = cs.head? := by
  unfold peek
  split
  · next hv =>
    cases cs with
    | nil => rfl
    | cons c cs =>
      have hc := hquiet hv c List.mem_cons_self
      rw [List.dropWhile_cons_of_neg (by simp [hc.1])]
      split
      · next heq => exact absurd (List.cons.inj heq).1 hc.2
      · next heq => rw [← (List.cons.inj heq).1, List.head?_cons]
      · next heq => simp at heq
  · rfl

/-- What is read at a place of a class is an item, or a range that goes from one item to another. -/
lemma classRange?_eq_some {found : List CodeRange} (h : classRange? f cs = some (found, after)) :
    ∃ first rest, classItem? f cs = some (first, rest) ∧ (after = f.skip rest ∨
      ∃ inner last, f.skip rest = '-' :: inner ∧ peek f inner ≠ some ']' ∧
        classItem? f (f.skip inner) = some (last, after)) := by
  unfold classRange? at h
  simp only [Option.bind_eq_bind, Option.bind_eq_some_iff, Option.pure_def] at h
  obtain ⟨⟨first, rest⟩, hfirst, h⟩ := h
  refine ⟨first, rest, hfirst, ?_⟩
  dsimp only at h
  split at h
  · simp at h
  · next inner hinner =>
    split at h
    · obtain ⟨_, -, hp⟩ := Option.bind_eq_some_iff.mp h
      exact .inl ((Prod.mk.inj (Option.some.inj hp)).2.symm.trans hinner.symm)
    · next hpeek =>
      rw [not_or] at hpeek
      obtain ⟨⟨last, behind⟩, hlast, hrange⟩ := Option.bind_eq_some_iff.mp h
      refine .inr ⟨inner, last, hinner, hpeek.1, ?_⟩
      split at hrange
      · next hpair =>
        split at hrange
        · rw [hlast, (Prod.mk.inj hpair).2, (Prod.mk.inj (Option.some.inj hrange)).2]
        · simp at hrange
      · simp at hrange
  · obtain ⟨_, -, hp⟩ := Option.bind_eq_some_iff.mp h
    exact .inl (Prod.mk.inj (Option.some.inj hp)).2.symm

/-- What stands between brackets and colons is the name of a class. -/
lemma namedClass?_eq_some {set : CharSet} (h : namedClass? cs = some (set, after)) :
    ∃ sign name, (sign = [] ∨ sign = ['^']) ∧ (∃ set, (name, set) ∈ CharSet.named) ∧
      cs = ':' :: (sign ++ (name.toList ++ ':' :: ']' :: after)) := by
  unfold namedClass? at h
  split at h
  · next rest =>
    split at h
    next _ negated inner hsign =>
    have hrest : ∃ sign, (sign = [] ∨ sign = ['^']) ∧ rest = sign ++ inner := by
      split at hsign
      · exact ⟨['^'], .inr rfl, congrArg (List.cons '^') (Prod.mk.inj hsign).2⟩
      · exact ⟨[], .inl rfl, (Prod.mk.inj hsign).2⟩
    obtain ⟨sign, hsigns, rfl⟩ := hrest
    dsimp only at h
    split at h
    · next behind hdrop =>
      obtain ⟨found, hfound, hp⟩ := Option.map_eq_some_iff.mp h
      obtain ⟨-, rfl⟩ := Prod.mk.inj hp
      obtain ⟨front, back, hnamed, -⟩ := List.lookup_eq_some_iff.mp hfound
      refine ⟨sign, _, hsigns, ⟨found, hnamed ▸ List.mem_append_cons_self⟩, ?_⟩
      rw [String.toList_ofList, ← hdrop, ← List.prefix_append_drop (List.takeWhile_prefix _)]
    · simp at h
  · simp at h

/-! ## Groups -/

/-- Characters that end nothing behind an opening parenthesis. -/
def IsInert (cs : List Char) : Prop := ∀ c ∈ cs, c ≠ ':' ∧ c ≠ '>' ∧ c ≠ ')'

lemma isInert_of_flags? {seen : List Char} {off : Bool}
    (h : flags? f seen off cs = some (f', rest)) :
    ∃ names c after, IsInert names ∧ cs = names ++ rest ∧ rest = c :: after ∧
      (c = ':' ∨ c = ')') := by
  induction cs generalizing f seen off with
  | nil => simp [flags?] at h
  | cons c cs ih =>
    -- the character is one more of those in front
    have hcons : c ≠ ':' → c ≠ ')' → c ≠ '>' →
        ∀ {g seen off}, flags? g seen off cs = some (f', rest) →
          ∃ names d after, IsInert names ∧ c :: cs = names ++ rest ∧ rest = d :: after ∧
            (d = ':' ∨ d = ')') := by
      intro hcolon hclose hangle g seen off hg
      obtain ⟨names, d, after, hnames, rfl, hrest⟩ := ih hg
      exact ⟨c :: names, d, after, List.forall_mem_cons.mpr ⟨⟨hcolon, hangle, hclose⟩, hnames⟩, rfl,
        hrest⟩
    rw [flags?.eq_def] at h
    dsimp only at h
    split at h
    · next hc =>
      obtain ⟨-, rfl⟩ := Prod.mk.inj (Option.some.inj h)
      exact ⟨[], c, cs, fun _ hc => absurd hc List.not_mem_nil, rfl, rfl, hc⟩
    · next hc =>
      rw [not_or] at hc
      split at h
      · next hminus =>
        split at h
        · split at h
          · simp at h
          · exact hcons hc.1 hc.2 (by rw [hminus]; decide) h
        · simp at h
      · split at h
        · simp at h
        · obtain ⟨g, hset, hg⟩ := Option.bind_eq_some_iff.mp h
          refine hcons hc.1 hc.2 ?_ hg
          rintro rfl
          simp [Flags.set?] at hset

lemma isInert_of_groupName? {name : String} (h : groupName? cs = some (name, after)) :
    ∃ chars, IsInert chars ∧ cs = chars ++ '>' :: after := by
  unfold groupName? at h
  dsimp only at h
  split at h
  · next first others behind hname hdrop =>
    split at h
    · next hvalid =>
      obtain ⟨-, rfl⟩ := Prod.mk.inj (Option.some.inj h)
      rw [Bool.and_eq_true, List.all_eq_true] at hvalid
      refine ⟨first :: others, List.forall_mem_cons.mpr ⟨?_, fun c hc => ?_⟩, ?_⟩
      · refine ⟨?_, ?_, ?_⟩ <;> rintro rfl <;> exact absurd hvalid.1 (by decide)
      · refine ⟨?_, ?_, ?_⟩ <;> rintro rfl <;> exact absurd (hvalid.2 _ hc) (by decide)
      · rw [← hname, ← hdrop, ← List.prefix_append_drop (List.takeWhile_prefix _)]
    · simp at h
  · simp at h

/-- How a group opens behind its parenthesis: it may have a prefix that ends with a sign. -/
def OpensWith (sign : Char) (cs after : List Char) : Prop :=
  ∃ names, IsInert names ∧ cs = '?' :: (names ++ sign :: after)

/-- A group has been opened. -/
structure Opens (s s' : State) : Prop where
  branches : s'.level.branches = []
  parts : s'.level.parts = []
  around : s'.around = s.level :: s.around

lemma opens_of_open? {inner : Flags} {capture : Option Capture}
    (h : s.open? inner capture = some s') : Opens s s' := by
  unfold State.open? at h
  split at h
  · exact Option.some.inj h ▸ ⟨rfl, rfl, rfl⟩
  · simp at h

lemma opens_of_openCapture? {name : Option String} (h : s.openCapture? name = some s') :
    Opens s s' := by
  have hopens := opens_of_open? h
  exact ⟨hopens.branches, hopens.parts, hopens.around⟩

lemma opens_of_openNamed? (h : openNamed? s cs = some (s', after)) :
    Opens s s' ∧ ∃ chars, IsInert chars ∧ cs = chars ++ '>' :: after := by
  unfold openNamed? at h
  simp only [Option.bind_eq_bind, Option.bind_eq_some_iff] at h
  obtain ⟨⟨name, behind⟩, hname, h⟩ := h
  dsimp only at h
  split at h
  · simp at h
  · simp only [Option.bind_eq_some_iff, Option.pure_def, Option.some.injEq] at h
    obtain ⟨s'', hopen, h⟩ := h
    obtain ⟨rfl, rfl⟩ := Prod.mk.inj h
    exact ⟨opens_of_openCapture? hopen, isInert_of_groupName? hname⟩

/-- What is read behind an opening parenthesis: flags for what follows, or the beginning of a
group. -/
lemma group?_eq_some (h : group? s cs = some (s', after)) :
    ((∃ flags, s' = { s with flags }) ∧ OpensWith ')' (s.flags.skip cs) after) ∨
      Opens s s' ∧ (OpensWith ':' (s.flags.skip cs) after ∨ OpensWith '>' (s.flags.skip cs) after ∨
        s.flags.skip cs = after ∧ after.head? ≠ some '?') := by
  unfold group? at h
  split at h
  iterate 4 simp at h
  · next rest hcs =>
    obtain ⟨hopens, chars, hchars, rfl⟩ := opens_of_openNamed? h
    refine .inr ⟨hopens, .inr (.inl ⟨'P' :: '<' :: chars, ?_, hcs⟩)⟩
    exact List.forall_mem_cons.mpr ⟨by decide, List.forall_mem_cons.mpr ⟨by decide, hchars⟩⟩
  · next rest _ _ hcs =>
    obtain ⟨hopens, chars, hchars, rfl⟩ := opens_of_openNamed? h
    refine .inr ⟨hopens, .inr (.inl ⟨'<' :: chars, ?_, hcs⟩)⟩
    exact List.forall_mem_cons.mpr ⟨by decide, hchars⟩
  · next rest _ _ _ _ _ _ hcs =>
    simp only [Option.bind_eq_bind, Option.bind_eq_some_iff] at h
    obtain ⟨⟨flags, found⟩, hflags, h⟩ := h
    obtain ⟨names, c, behind, hnames, rfl, rfl, hc⟩ := isInert_of_flags? hflags
    split at h
    · next g tail hfound =>
      obtain ⟨rfl, htail⟩ := Prod.mk.inj hfound
      obtain ⟨rfl, rfl⟩ := List.cons.inj htail
      split at h
      · simp at h
      · obtain ⟨rfl, rfl⟩ := Prod.mk.inj (Option.some.inj h)
        exact .inl ⟨⟨flags, rfl⟩, names, hnames, hcs⟩
    · next g sign tail hsign hfound =>
      obtain ⟨rfl, htail⟩ := Prod.mk.inj hfound
      obtain ⟨rfl, rfl⟩ := List.cons.inj htail
      obtain rfl := hc.resolve_right hsign
      obtain ⟨opened, hopen, hp⟩ := Option.bind_eq_some_iff.mp h
      obtain ⟨rfl, rfl⟩ := Prod.mk.inj (Option.some.inj hp)
      exact .inr ⟨opens_of_open? hopen, .inl ⟨names, hnames, hcs⟩⟩
    · simp at h
  · next hquestion =>
    obtain ⟨opened, hopen, hp⟩ := Option.map_eq_some_iff.mp h
    obtain ⟨rfl, rfl⟩ := Prod.mk.inj hp
    refine .inr ⟨opens_of_openCapture? hopen, .inr (.inr ⟨rfl, fun hhead => ?_⟩)⟩
    obtain ⟨inner, hinner⟩ := List.head?_eq_some_iff.mp hhead
    exact hquestion inner hinner

/-! ## Numbers -/

/-- What stands between blanks. -/
lemma stripWhile_eq {p : Char → Bool} {front inner back : List Char} (hfront : ∀ c ∈ front, p c)
    (hinner : ∀ c ∈ inner, p c = false) (hback : ∀ c ∈ back, p c) :
    Text.stripWhile p (front ++ (inner ++ back)) = inner := by
  have hall : ∀ (cs rest : List Char), (∀ c ∈ cs, p c = false) → cs ≠ [] →
      (cs ++ rest).dropWhile p = cs ++ rest := by
    intro cs rest hcs hne
    obtain ⟨c, cs, rfl⟩ := List.exists_cons_of_ne_nil hne
    exact List.dropWhile_cons_of_neg (by simp [hcs c List.mem_cons_self])
  rw [Text.stripWhile, Text.dropEndWhile, List.dropWhile_append_of_pos hfront]
  by_cases hne : inner = []
  · have hnil : back.dropWhile p = [] := List.dropWhile_eq_nil_iff.mpr hback
    rw [hne, List.nil_append, hnil]
    rfl
  · rw [hall _ _ hinner hne, List.reverse_append,
      List.dropWhile_append_of_pos (by simpa using hback)]
    have hreverse := hall inner.reverse [] (by simpa using hinner) (by simpa)
    rw [List.append_nil] at hreverse
    rw [hreverse, List.reverse_reverse]

/-- Digits are read as a number also between blanks. -/
lemma number?_eq_some {front digits back : List Char} (hfront : ∀ c ∈ front, Text.isBlank c)
    (hdigits : ∀ c ∈ digits, c.isDigit) (hback : ∀ c ∈ back, Text.isBlank c) (hne : digits ≠ [])
    (hlt : digits.foldl (fun n c => n * 10 + (c.toNat - '0'.toNat)) 0 < Nat.pow 2 32) :
    Shape.number? (front ++ (digits ++ back)) =
      some (digits.foldl (fun n c => n * 10 + (c.toNat - '0'.toNat)) 0) := by
  have hblank : ∀ c ∈ digits, Text.isBlank c = false :=
    fun c hc => Text.isBlank_of_isDigit (hdigits c hc)
  have hsign : ∀ rest, digits ≠ '+' :: rest := by
    rintro rest rfl
    exact absurd (hdigits '+' List.mem_cons_self) (by decide)
  simp only [Shape.number?, stripWhile_eq hfront hblank hback]
  refine if_pos ?_
  simp only [Bool.and_eq_true, Bool.not_eq_true', List.isEmpty_eq_false_iff, List.all_eq_true,
    decide_eq_true_eq]
  exact ⟨⟨hne, hdigits⟩, hlt⟩

/-- The digits of a number, with blanks around them. -/
lemma decimal?_eq_some {n : Nat} (hquiet : f.Quiet cs) (h : decimal? f cs = some (n, after)) :
    ∃ text, cs = text ++ after ∧ (∀ c ∈ text, Text.isBlank c ∨ c.isDigit) ∧
      Shape.number? text = some n := by
  unfold decimal? at h
  have hinner : f.Quiet (cs.dropWhile Text.isBlank) := hquiet.of_suffix (List.dropWhile_suffix _)
  simp only [Option.bind_eq_bind, Option.bind_eq_some_iff] at h
  obtain ⟨⟨d, behind⟩, hlast, h⟩ := h
  obtain ⟨front, hfront⟩ := List.getLast?_eq_some_iff.mp hlast
  have hall : cs.dropWhile Text.isBlank =
      ((f.significant (cs.dropWhile Text.isBlank)).takeWhile (·.1.isDigit)).map Prod.fst ++
        behind := by
    have hsplit : f.significant (cs.dropWhile Text.isBlank) = front ++ (d, behind) ::
        (f.significant (cs.dropWhile Text.isBlank)).dropWhile (·.1.isDigit) := by
      rw [List.append_cons, ← hfront, List.takeWhile_append_dropWhile]
    rw [hfront]
    simpa using hinner.eq_of_significant hsplit
  generalize hdigits : (f.significant (cs.dropWhile Text.isBlank)).takeWhile (·.1.isDigit) = digits
    at h hall hfront
  split at h
  · next hlt =>
    obtain ⟨rfl, rfl⟩ := Prod.mk.inj (Option.some.inj h)
    have hbehind : f.Quiet behind := hinner.of_suffix ⟨_, hall.symm⟩
    have hvalue : digits.foldl (fun n d => n * 10 + (d.1.toNat - '0'.toNat)) 0 =
        (digits.map Prod.fst).foldl (fun n c => n * 10 + (c.toNat - '0'.toNat)) 0 := by
      rw [List.foldl_map]
    have hdigit : ∀ c ∈ digits.map Prod.fst, c.isDigit := by
      rw [← hdigits]
      refine List.forall_mem_map.mpr fun x hx => ?_
      exact List.mem_takeWhile_imp (p := fun x : Char × List Char => x.1.isDigit) hx
    have hbefore : ∀ c ∈ cs.takeWhile Text.isBlank, Text.isBlank c :=
      fun c hc => List.mem_takeWhile_imp hc
    have hafter : ∀ c ∈ behind.takeWhile Text.isBlank, Text.isBlank c :=
      fun c hc => List.mem_takeWhile_imp hc
    have hne : digits.map Prod.fst ≠ [] := by simp [hfront]
    rw [hvalue] at hlt ⊢
    refine ⟨_, ?_, ?_, number?_eq_some hbefore hdigit hafter hne hlt⟩
    · rw [hbehind.skip_eq, List.append_assoc, List.append_assoc, List.takeWhile_append_dropWhile,
        ← hall, List.takeWhile_append_dropWhile]
    · intro c hc
      rcases List.mem_append.mp hc with hc | hc
      · exact .inl (hbefore c hc)
      · exact (List.mem_append.mp hc).symm.imp (hafter c) (hdigit c)
  · simp at h

end Pattern.Reader

end EntityFilter
