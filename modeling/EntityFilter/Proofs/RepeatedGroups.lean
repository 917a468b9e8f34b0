import EntityFilter.Pattern.Size
import EntityFilter.Proofs.PatternText

/-!
# Repeated groups in patterns

A pattern is safe to match when no group that is repeated without bound repeats without bound or has
alternatives inside, and no group that is repeated a counted number of times repeats without bound
inside (`Pattern.IsSafe`).  Inside means at any depth, and a group is repeated also when other
repetitions of it stand in between.

Trees are built from their parts, and a part is changed only by a repetition that follows it.  So a
pattern is safe if each repetition in its text is, at the time when it is read
(`Pattern.isSafe_of_items`).  The text says more than the tree here: exactly three copies and at
least and at most three copies make the same tree.
-/

namespace EntityFilter

namespace Pattern

mutual

/-- A pattern and all patterns inside it, at any depth. -/
def subpatterns : Pattern → List Pattern
  | repetition least most p => repetition least most p :: subpatterns p
  | group capture p => group capture p :: subpatterns p
  | concat ps => concat ps :: subpatternsAll ps
  | alternation ps => alternation ps :: subpatternsAll ps
  | p => [p]

/-- The patterns of a list and all patterns inside them. -/
def subpatternsAll : List Pattern → List Pattern
  | [] => []
  | p :: ps => subpatterns p ++ subpatternsAll ps

end

-- The equations are made here once, since many proofs below ask for them at the same time.
section
attribute [local simp] subpatterns subpatternsAll
end

/-- A property that a pattern and all patterns inside it have. -/
def All (Q : Pattern → Prop) (p : Pattern) : Prop := ∀ q ∈ p.subpatterns, Q q

/-- Whether a pattern is a repetition without bound. -/
def isUnbounded : Pattern → Bool
  | repetition _ none _ => true
  | _ => false

/-- Whether a pattern has alternatives. -/
def isAlternation : Pattern → Bool
  | alternation _ => true
  | _ => false

/-- Whether a pattern is made in one step: a character, a set of characters or a place. -/
def isAtom : Pattern → Bool
  | char _ | oneOf _ | look _ => true
  | _ => false

/-- The body of a group, which may be under repetitions. -/
def groupBody? : Pattern → Option Pattern
  | group _ body => some body
  | repetition _ _ p => p.groupBody?
  | _ => none

/-- How often a repetition repeats that has an upper bound or none, and may ask for an exact
number. -/
def Shape.Count.of (exact : Bool) : Option Nat → Shape.Count
  | none => .unbounded
  | some most => if most ≤ 1 ∨ exact then .few else .counted

/-- Whether the body of a group may be repeated so often. -/
def Shape.Count.Allows (n : Shape.Count) (body : Pattern) : Prop :=
  match n with
  | .unbounded => body.All fun q => ¬ q.isUnbounded ∧ ¬ q.isAlternation
  | .counted => body.All fun q => ¬ q.isUnbounded
  | .few => True

/-- A pattern that is a repetition of a group is one that the body of the group allows. -/
def RepeatsSafely : Pattern → Prop
  | repetition least most p =>
    ∀ body ∈ p.groupBody?, (Shape.Count.of (most == some least) most).Allows body
  | _ => True

/-- No group is repeated more often than what is inside it allows. -/
def IsSafe (p : Pattern) : Prop := p.All RepeatsSafely

instance {Q : Pattern → Prop} [DecidablePred Q] (p : Pattern) : Decidable (p.All Q) :=
  inferInstanceAs (Decidable (∀ q ∈ p.subpatterns, Q q))

instance (n : Shape.Count) (body : Pattern) : Decidable (n.Allows body) :=
  match n with
  | .unbounded => inferInstanceAs (Decidable (body.All _))
  | .counted => inferInstanceAs (Decidable (body.All _))
  | .few => isTrue trivial

instance : DecidablePred RepeatsSafely
  | repetition _ _ p =>
    inferInstanceAs (Decidable (∀ body ∈ p.groupBody?, Shape.Count.Allows _ body))
  | empty | char _ | oneOf _ | look _ | group _ _ | concat _ | alternation _ => isTrue trivial

instance (p : Pattern) : Decidable p.IsSafe := inferInstanceAs (Decidable (p.All RepeatsSafely))

/-! ## Properties of everything inside -/

section

variable {Q : Pattern → Prop} {p q : Pattern} {ps : List Pattern}

lemma mem_subpatternsAll : q ∈ subpatternsAll ps ↔ ∃ p ∈ ps, q ∈ p.subpatterns := by
  induction ps with
  | nil => simp [subpatternsAll]
  | cons p ps ih => simp [subpatternsAll, ih]

lemma All.imp {Q' : Pattern → Prop} (h : p.All Q) (hQ : ∀ q, Q q → Q' q) : p.All Q' :=
  fun q hq => hQ q (h q hq)

lemma all_of_isAtom (ha : p.isAtom) (h : Q p) : p.All Q := by
  cases p with
  | char | oneOf | look => simpa [All, subpatterns] using h
  | _ => simp [isAtom] at ha

lemma all_group {capture : Option Capture} (h : Q (group capture p)) (hp : p.All Q) :
    (group capture p).All Q := by
  simpa [All, subpatterns] using ⟨h, hp⟩

lemma all_ofParts (hempty : Q empty) (hconcat : ∀ ps, Q (concat ps)) (h : ∀ p ∈ ps, p.All Q) :
    (ofParts ps).All Q := by
  unfold ofParts
  split
  · simpa [All, subpatterns] using hempty
  · exact h _ (List.mem_singleton_self _)
  · simp only [All, subpatterns, List.forall_mem_cons, mem_subpatternsAll]
    refine ⟨hconcat _, ?_⟩
    rintro q ⟨p, hp, hq⟩
    exact h p hp q hq

lemma all_ofBranches (hbranches : ps.length ≠ 1 → Q (alternation ps)) (h : ∀ p ∈ ps, p.All Q) :
    (ofBranches ps).All Q := by
  unfold ofBranches
  split
  · exact h _ (List.mem_singleton_self _)
  · next hps =>
    simp only [All, subpatterns, List.forall_mem_cons, mem_subpatternsAll]
    refine ⟨hbranches fun hone => ?_, ?_⟩
    · obtain ⟨p, rfl⟩ := List.length_eq_one_iff.mp hone
      exact hps p rfl
    · rintro q ⟨p, hp, hq⟩
      exact h p hp q hq

lemma all_copies {least : Nat} {most : Option Nat} (hempty : Q empty)
    (hrepetition : Q (repetition least most p)) (h : p.All Q) : (copies least most p).All Q := by
  unfold copies
  split
  · simpa [All, subpatterns] using hempty
  · split
    · exact h
    · simpa [All, subpatterns] using ⟨hrepetition, h⟩

end

lemma repeatsSafely_of_isAtom {p : Pattern} (h : p.isAtom) : p.RepeatsSafely := by
  cases p with
  | char | oneOf | look => trivial
  | _ => simp [isAtom] at h

/-- What allows more copies allows an exact number of them. -/
lemma Shape.Count.Allows.of_le {exact exact' : Bool} {most : Option Nat} {body : Pattern}
    (h : (Shape.Count.of exact most).Allows body) (hle : exact → exact') :
    (Shape.Count.of exact' most).Allows body := by
  cases most with
  | none => exact h
  | some most =>
    by_cases hfew : most ≤ 1 ∨ exact'
    · simp [Shape.Count.of, hfew, Shape.Count.Allows]
    · rw [not_or] at hfew
      have hexact : ¬ exact := fun he => hfew.2 (hle he)
      simpa [Shape.Count.of, hfew, hexact] using h

namespace Reader

/-! ## Items of a text -/

/-- An item of a text as it is read. -/
structure Item where
  /-- The reader before the item. -/
  state : State
  /-- The item and all that stands behind it. -/
  text : List Char
  /-- What stands behind the item. -/
  after : List Char
  /-- Whether the item stands right behind the parenthesis that closes a group. -/
  closing : Bool

/-- Whether a counted repetition asks for an exact number of copies. -/
def isExact (f : Flags) (cs : List Char) : Bool :=
  (decimal? f (f.skip cs)).any fun (_, after) => after.head? == some '}'

/-- How often an item repeats what stands before it, if it is a repetition. -/
def count? (f : Flags) (c : Char) (rest : List Char) : Option Shape.Count :=
  match c with
  | '?' => some .few
  | '*' | '+' => some .unbounded
  | '{' => (bounds? f rest).map fun (_, most, _) => .of (isExact f rest) most
  | _ => none

namespace Item

variable (i : Item)

/-- The item and all that stands behind it, without blanks and comments before the item. -/
def chars : List Char := i.state.flags.skip i.text

/-- How often the item repeats what stands before it, if it is a repetition. -/
def count? : Option Shape.Count :=
  match i.chars with
  | c :: rest => Reader.count? i.state.flags c rest
  | [] => none

/-- The body of the group that stands before the item, with repetitions or none. -/
def body? : Option Pattern := i.state.level.parts.head?.bind groupBody?

/-- If the item repeats a group, the group allows it. -/
def IsSafe : Prop := ∀ n body, i.count? = some n → i.body? = some body → n.Allows body

end Item

/-- The items of a text in the order in which they are read, in so many steps at most. -/
def items : Nat → Bool → State → List Char → List Item
  | 0, _, _, _ => []
  | steps + 1, closing, s, cs =>
    match s.flags.skip cs with
    | [] => []
    | c :: rest =>
      match step? s c rest with
      | some (s', after) => ⟨s, cs, after, closing⟩ :: items steps (c == ')') s' after
      | none => []

/-! ## What an item does -/

variable {f : Flags} {s s' : State} {p : Pattern} {c : Char} {cs rest after : List Char}

section

lemma Flags.isAtom_char (f : Flags) (c : Char) : (f.char c).isAtom := by
  unfold Flags.char
  split <;> rfl

lemma isAtom_of_hex? {width : Nat} (h : hex? f width cs = some (p, after)) : p.isAtom := by
  unfold hex? at h
  split at h
  · dsimp only at h
    split at h
    · obtain ⟨c, -, hc⟩ := Option.map_eq_some_iff.mp h
      exact (Prod.mk.inj hc).1 ▸ f.isAtom_char c
    · simp at h
  · dsimp only at h
    split at h
    · simp only [Option.bind_eq_bind, Option.bind_eq_some_iff, Option.pure_def,
        Option.some.injEq] at h
      obtain ⟨_, -, c, -, hc⟩ := h
      exact (Prod.mk.inj hc).1 ▸ f.isAtom_char c
    · simp at h

lemma isAtom_of_boundary? (h : boundary? f cs = some (p, after)) : p.isAtom := by
  unfold boundary? at h
  split at h
  · split at h
    · simp at h
    · dsimp only at h
      split at h
      · exact (Prod.mk.inj (Option.some.inj h)).1 ▸ rfl
      · split at h
        · obtain ⟨l, -, hl⟩ := Option.map_eq_some_iff.mp h
          exact (Prod.mk.inj hl).1 ▸ rfl
        · simp at h
  · exact (Prod.mk.inj (Option.some.inj h)).1 ▸ rfl

lemma isAtom_of_escapeLetter? (h : escapeLetter? f c = some p) : p.isAtom := by
  unfold escapeLetter? at h
  split at h <;> first
    | exact Option.some.inj h ▸ rfl
    | exact Option.some.inj h ▸ f.isAtom_char _
    | simp at h

lemma isAtom_of_escape? (h : escape? f cs = some (p, after)) : p.isAtom := by
  unfold escape? at h
  split at h
  · simp at h
  · exact isAtom_of_hex? h
  · exact isAtom_of_hex? h
  · exact isAtom_of_hex? h
  · exact isAtom_of_boundary? h
  · split at h
    · exact (Prod.mk.inj (Option.some.inj h)).1 ▸ f.isAtom_char _
    · obtain ⟨q, hq, hqp⟩ := Option.map_eq_some_iff.mp h
      exact (Prod.mk.inj hqp).1 ▸ isAtom_of_escapeLetter? hq

lemma isAtom_of_class? (h : class? f cs = some (p, after)) : p.isAtom := by
  obtain ⟨_, _, _, _, _, -, -, -, rfl⟩ := class?_eq_some h
  rfl

end

/-- Whether a character is an item by itself. -/
def isOrdinary (c : Char) : Bool :=
  !(['(', ')', '[', '|', '?', '*', '+', '{', '\\'].contains c)

lemma count?_of_isOrdinary (hc : isOrdinary c) : count? f c rest = none := by
  unfold count?
  split <;> first | rfl | simp [isOrdinary] at hc

/-- What an item does with the reader and what it leaves of the text. -/
inductive Step (s : State) (rest : List Char) : Char → State → List Char → Prop
  | group {s' : State} {after : List Char} (h : group? s rest = some (s', after)) :
    Step s rest '(' s' after
  | close {s' : State} (h : s.close? = some s') : Step s rest ')' s' rest
  | branch : Step s rest '|' s.branch rest
  | option {s' : State} (h : s.repeatLast? 0 (some 1) = some s') :
    Step s rest '?' s' (skipReluctant rest)
  | star {s' : State} (h : s.repeatLast? 0 none = some s') : Step s rest '*' s' (skipReluctant rest)
  | plus {s' : State} (h : s.repeatLast? 1 none = some s') : Step s rest '+' s' (skipReluctant rest)
  | counted {s' : State} {least : Nat} {most : Option Nat} {behind : List Char}
    (hbounds : bounds? s.flags rest = some (least, most, behind))
    (h : s.repeatLast? least most = some s') :
    Step s rest '{' s' (skipReluctant (s.flags.skip behind))
  | oneOf {p : Pattern} {after : List Char} (h : class? s.flags rest = some (p, after)) :
    Step s rest '[' (s.push p) after
  | escape {p : Pattern} {after : List Char} (h : escape? s.flags rest = some (p, after)) :
    Step s rest '\\' (s.push p) after
  | single {c : Char} {p : Pattern} (hc : isOrdinary c) (hp : p.isAtom) :
    Step s rest c (s.push p) rest

lemma Step.of_step? (h : step? s c rest = some (s', after)) : Step s rest c s' after := by
  unfold step? at h
  split at h
  · exact .group h
  · obtain ⟨_, hclose, hp⟩ := Option.map_eq_some_iff.mp h
    obtain ⟨rfl, rfl⟩ := Prod.mk.inj hp
    exact .close hclose
  · obtain ⟨rfl, rfl⟩ := Prod.mk.inj (Option.some.inj h)
    exact .branch
  · obtain ⟨⟨_, _⟩, hclass, hp⟩ := Option.map_eq_some_iff.mp h
    obtain ⟨rfl, rfl⟩ := Prod.mk.inj hp
    exact .oneOf hclass
  · obtain ⟨_, hrepeat, hp⟩ := Option.map_eq_some_iff.mp h
    obtain ⟨rfl, rfl⟩ := Prod.mk.inj hp
    exact .option hrepeat
  · obtain ⟨_, hrepeat, hp⟩ := Option.map_eq_some_iff.mp h
    obtain ⟨rfl, rfl⟩ := Prod.mk.inj hp
    exact .star hrepeat
  · obtain ⟨_, hrepeat, hp⟩ := Option.map_eq_some_iff.mp h
    obtain ⟨rfl, rfl⟩ := Prod.mk.inj hp
    exact .plus hrepeat
  · simp only [Option.bind_eq_bind, Option.bind_eq_some_iff, Option.pure_def,
      Option.some.injEq] at h
    obtain ⟨⟨least, most, behind⟩, hbounds, _, hrepeat, hp⟩ := h
    obtain ⟨rfl, rfl⟩ := Prod.mk.inj hp
    exact .counted hbounds hrepeat
  · obtain ⟨⟨_, _⟩, hescape, hp⟩ := Option.map_eq_some_iff.mp h
    obtain ⟨rfl, rfl⟩ := Prod.mk.inj hp
    exact .escape hescape
  · obtain ⟨rfl, rfl⟩ := Prod.mk.inj (Option.some.inj h)
    exact .single rfl rfl
  · obtain ⟨rfl, rfl⟩ := Prod.mk.inj (Option.some.inj h)
    exact .single rfl rfl
  · obtain ⟨rfl, rfl⟩ := Prod.mk.inj (Option.some.inj h)
    exact .single rfl rfl
  · next hopen hclose hbar hbracket hquestion hstar hplus hbrace hescape _ _ _ =>
    obtain ⟨rfl, rfl⟩ := Prod.mk.inj (Option.some.inj h)
    refine .single ?_ (Flags.isAtom_char _ _)
    simpa [isOrdinary] using
      ⟨hopen, hclose, hbracket, hbar, hquestion, hstar, hplus, hbrace, hescape⟩

/-! ## Everything that is read is safe -/

section

variable {Q : Pattern → Prop} {l : Level}

/-- A property of everything inside the patterns of a level. -/
def Level.All (Q : Pattern → Prop) (l : Level) : Prop := ∀ p ∈ l.branches ++ l.parts, p.All Q

lemma Level.All.ofParts (hempty : Q empty) (hconcat : ∀ ps, Q (concat ps)) (h : l.All Q) :
    (Pattern.ofParts l.parts.reverse).All Q :=
  all_ofParts hempty hconcat fun p hp => h p (List.mem_append_right _ (List.mem_reverse.mp hp))

lemma Level.All.pattern (hempty : Q empty) (hconcat : ∀ ps, Q (concat ps))
    (hbranches : l.branches ≠ [] → ∀ ps, Q (alternation ps)) (h : l.All Q) : l.pattern.All Q := by
  refine all_ofBranches (fun hlength => hbranches ?_ _) fun p hp => ?_
  · rintro hnil
    simp [hnil] at hlength
  · rcases List.mem_append.mp hp with hp | hp
    · exact h p (List.mem_append_left _ hp)
    · obtain rfl := List.mem_singleton.mp hp
      exact h.ofParts hempty hconcat

lemma Level.All.push (h : l.All Q) (hp : p.All Q) :
    Level.All Q { l with parts := p :: l.parts } := by
  intro q hq
  rcases List.mem_append.mp hq with hq | hq
  · exact h q (List.mem_append_left _ hq)
  · rcases List.mem_cons.mp hq with rfl | hq
    · exact hp
    · exact h q (List.mem_append_right _ hq)

lemma Level.All.branch (hempty : Q empty) (hconcat : ∀ ps, Q (concat ps)) (h : l.All Q) :
    Level.All Q { l with branches := l.branches ++ [.ofParts l.parts.reverse], parts := [] } := by
  intro q hq
  rw [List.append_nil, List.mem_append, List.mem_singleton] at hq
  rcases hq with hq | rfl
  · exact h q (List.mem_append_left _ hq)
  · exact h.ofParts hempty hconcat

/-- The last part is repeated. -/
lemma Level.All.repeatLast {parts : List Pattern} {least : Nat} {most : Option Nat}
    (hempty : Q empty) (hparts : l.parts = p :: parts) (hrepetition : Q (repetition least most p))
    (h : l.All Q) : Level.All Q { l with parts := copies least most p :: parts } := by
  intro q hq
  rcases List.mem_append.mp hq with hq | hq
  · exact h q (List.mem_append_left _ hq)
  · rcases List.mem_cons.mp hq with rfl | hq
    · exact all_copies hempty hrepetition (h p (by simp [hparts]))
    · exact h q (by simp [hparts, hq])

lemma Level.all_of_nil (hbranches : l.branches = []) (hparts : l.parts = []) : l.All Q := by
  simp [Level.All, hbranches, hparts]

end

lemma State.repeatLast?_eq_some {least : Nat} {most : Option Nat}
    (h : s.repeatLast? least most = some s') :
    ∃ p parts, s.level.parts = p :: parts ∧
      s' = { s with level := { s.level with parts := copies least most p :: parts } } := by
  unfold State.repeatLast? at h
  split at h
  · simp at h
  · next p parts hparts => exact ⟨p, parts, hparts, (Option.some.inj h).symm⟩

lemma State.close?_eq_some (h : s.close? = some s') :
    ∃ parent around, s.around = parent :: around ∧ s'.around = around ∧
      s'.level =
        { parent with parts := .group s.level.capture s.level.pattern :: parent.parts } := by
  unfold State.close? at h
  split at h
  · simp at h
  · next parent around haround =>
    obtain rfl := Option.some.inj h
    exact ⟨parent, around, haround, rfl, rfl⟩

/-- All patterns that the reader holds are safe. -/
def State.IsSafe (s : State) : Prop := ∀ l ∈ s.level :: s.around, l.All RepeatsSafely

lemma eq_of_isExact {least : Nat} {most : Option Nat}
    (h : bounds? f cs = some (least, most, after)) (hexact : isExact f cs) : most = some least := by
  unfold isExact at hexact
  cases hn : decimal? f (f.skip cs) with
  | none => simp [hn] at hexact
  | some x =>
    obtain ⟨n, behind⟩ := x
    simp only [hn, Option.any_some, beq_iff_eq, List.head?_eq_some_iff] at hexact
    obtain ⟨tail, rfl⟩ := hexact
    simp only [bounds?, hn, Option.bind_eq_bind, Option.bind_some, Option.some.injEq,
      Prod.mk.injEq] at h
    rw [← h.1, ← h.2.1]

/-- A repetition that is safe when it is read leaves a safe reader. -/
lemma State.IsSafe.repeatLast {least : Nat} {most : Option Nat} (hs : s.IsSafe)
    (h : s.repeatLast? least most = some s')
    (hallows : ∀ body, s.level.parts.head?.bind groupBody? = some body →
      (Shape.Count.of (most == some least) most).Allows body) : s'.IsSafe := by
  obtain ⟨p, parts, hparts, rfl⟩ := State.repeatLast?_eq_some h
  obtain ⟨hlevel, haround⟩ := List.forall_mem_cons.mp hs
  refine List.forall_mem_cons.mpr ⟨?_, haround⟩
  refine hlevel.repeatLast trivial hparts fun body hbody => ?_
  exact hallows body (by simpa [hparts] using hbody)

/-- **A safe item leaves a safe reader.** -/
theorem State.IsSafe.step (hs : s.IsSafe) (h : Step s rest c s' after)
    (hitem : ∀ n body, count? s.flags c rest = some n →
      s.level.parts.head?.bind groupBody? = some body → n.Allows body) : s'.IsSafe := by
  obtain ⟨hlevel, haround⟩ := List.forall_mem_cons.mp hs
  have hempty : RepeatsSafely empty := trivial
  have hconcat : ∀ ps, RepeatsSafely (concat ps) := fun _ => trivial
  cases h with
  | group h =>
    rcases group?_eq_some h with ⟨⟨flags, rfl⟩, -⟩ | ⟨hopens, -⟩
    · exact hs
    · rw [State.IsSafe, hopens.around]
      exact List.forall_mem_cons.mpr ⟨Level.all_of_nil hopens.branches hopens.parts, hs⟩
  | close h =>
    obtain ⟨parent, around, hparent, haround', hlevel'⟩ := State.close?_eq_some h
    rw [hparent] at haround
    rw [State.IsSafe, hlevel', haround']
    obtain ⟨hparent, haround⟩ := List.forall_mem_cons.mp haround
    have hbody := hlevel.pattern hempty hconcat fun _ _ => trivial
    exact List.forall_mem_cons.mpr ⟨hparent.push (all_group trivial hbody), haround⟩
  | branch => exact List.forall_mem_cons.mpr ⟨hlevel.branch hempty hconcat, haround⟩
  | option h => exact hs.repeatLast h fun body hbody => trivial
  | star h => exact hs.repeatLast h fun body hbody => hitem _ body rfl hbody
  | plus h => exact hs.repeatLast h fun body hbody => hitem _ body rfl hbody
  | @counted _ _ most _ hbounds h =>
    refine hs.repeatLast h fun body hbody => ?_
    have hcount : count? s.flags '{' rest = some (.of (isExact s.flags rest) most) := by
      rw [count?, hbounds, Option.map_some]
    refine (hitem _ body hcount hbody).of_le fun hexact => ?_
    rw [eq_of_isExact hbounds hexact, beq_self_eq_true]
  | oneOf h =>
    have ha := isAtom_of_class? h
    exact List.forall_mem_cons.mpr
      ⟨hlevel.push (all_of_isAtom ha (repeatsSafely_of_isAtom ha)), haround⟩
  | escape h =>
    have ha := isAtom_of_escape? h
    exact List.forall_mem_cons.mpr
      ⟨hlevel.push (all_of_isAtom ha (repeatsSafely_of_isAtom ha)), haround⟩
  | single hc ha =>
    exact List.forall_mem_cons.mpr
      ⟨hlevel.push (all_of_isAtom ha (repeatsSafely_of_isAtom ha)), haround⟩

/-- Safe items leave a safe reader. -/
lemma State.IsSafe.run {steps : Nat} {closing : Bool} (hs : s.IsSafe)
    (hitems : ∀ i ∈ items steps closing s cs, i.IsSafe) (h : run? steps s cs = some s') :
    s'.IsSafe := by
  induction steps generalizing closing s cs with
  | zero =>
    rw [run?] at h
    split at h
    · exact Option.some.inj h ▸ hs
    · simp at h
  | succ steps ih =>
    rw [run?] at h
    rw [items] at hitems
    split at h
    · exact Option.some.inj h ▸ hs
    · next c rest hcs =>
      split at h
      · next s'' after hstep =>
        rw [hcs] at hitems
        simp only [hstep] at hitems
        obtain ⟨hitem, hitems⟩ := List.forall_mem_cons.mp hitems
        refine ih (hs.step (.of_step? hstep) fun n body hn hbody => ?_) hitems h
        exact hitem n body (by simpa [Item.count?, Item.chars, hcs] using hn) hbody
      · simp at h

end Reader

/-- The items of a text in the order in which they are read. -/
def items (text : String) : List Reader.Item := Reader.items text.length false {} text.toList

/-- **A pattern is safe if every item of its text is.** -/
theorem isSafe_of_items {text : String} {p : Pattern} (h : read? text = some p)
    (hitems : ∀ i ∈ items text, i.IsSafe) : p.IsSafe := by
  unfold read? at h
  split at h
  · next s hrun =>
    have hs : Reader.State.IsSafe {} := by
      simp [Reader.State.IsSafe, Reader.Level.all_of_nil]
    obtain ⟨hlevel, -⟩ := List.forall_mem_cons.mp (hs.run hitems hrun)
    split at h
    · rw [← Option.some.inj h]
      exact hlevel.pattern trivial (fun _ => trivial) fun _ _ => trivial
    · simp at h
  · simp at h

end Pattern

end EntityFilter
