import EntityFilter.Limits
import EntityFilter.Proofs.ShapeScan
import Mathlib.Data.List.Forall2

/-!
# Patterns that are accepted

A pattern whose text has no danger for the scanner should be safe as a tree.  It is, if the scanner
reads the text like the reader (`isSafe_of_accepted`): while the reader goes through the items, what
the scanner knows of the open groups covers what is in the levels of the reader (`Tracks`), so a
repetition of a group that it lets pass is one that the group allows.

The scanner looks for a repetition right behind the parenthesis that closes a group, takes blanks
and comments for characters whatever the flags are, and counts brackets in classes.  A pattern where
this goes wrong may be accepted and not be safe (`accepted_not_isSafe`).
-/

namespace EntityFilter

namespace Pattern

namespace Shape

/-- What the scanner knows of a body covers a pattern in it. -/
def Body.Covers (b : Body) (q : Pattern) : Prop :=
  (q.isUnbounded → b.unbounded) ∧ (q.isAlternation → b.alternation)

namespace Body

variable {b b' : Body} {q : Pattern} {l : Reader.Level}

lemma covers_of_isAtom (h : q.isAtom) : b.Covers q := by
  cases q with
  | char | oneOf | look => exact ⟨Bool.noConfusion, Bool.noConfusion⟩
  | _ => simp [isAtom] at h

lemma covers_empty : b.Covers empty := ⟨Bool.noConfusion, Bool.noConfusion⟩

lemma covers_concat (ps : List Pattern) : b.Covers (concat ps) :=
  ⟨Bool.noConfusion, Bool.noConfusion⟩

lemma covers_group (capture : Option Capture) : b.Covers (group capture q) :=
  ⟨Bool.noConfusion, Bool.noConfusion⟩

lemma covers_alternation (h : b.alternation) (ps : List Pattern) :
    b.Covers (Pattern.alternation ps) :=
  ⟨Bool.noConfusion, fun _ => h⟩

lemma Covers.mono (h : b.Covers q) (hu : b.unbounded → b'.unbounded)
    (ha : b.alternation → b'.alternation) : b'.Covers q :=
  ⟨fun hq => hu (h.1 hq), fun hq => ha (h.2 hq)⟩

/-- What the scanner knows of a body covers a level of the reader. -/
structure Tracks (b : Body) (l : Reader.Level) : Prop where
  patterns : l.All b.Covers
  branches : l.branches ≠ [] → b.alternation

lemma Tracks.mono (h : b.Tracks l) (hu : b.unbounded → b'.unbounded)
    (ha : b.alternation → b'.alternation) : b'.Tracks l :=
  ⟨fun p hp => (h.patterns p hp).imp fun _ hq => hq.mono hu ha, fun hl => ha (h.branches hl)⟩

lemma Tracks.pattern (h : b.Tracks l) : l.pattern.All b.Covers :=
  h.patterns.pattern covers_empty covers_concat fun hl => covers_alternation (h.branches hl)

lemma Tracks.push (h : b.Tracks l) (hq : q.All b.Covers) :
    b.Tracks { l with parts := q :: l.parts } :=
  ⟨h.patterns.push hq, h.branches⟩

end Body

/-- A repetition that is no danger to a body is allowed for what the body covers. -/
lemma Count.allows_of_danger? {n : Count} {b : Body} {body : Pattern} (h : n.danger? b = none)
    (hb : body.All b.Covers) : n.Allows body := by
  cases n with
  | few => trivial
  | counted =>
    have hunbounded : b.unbounded = false := by
      simpa [Count.danger?] using h
    intro q hq
    have hcovers := (hb q hq).1
    simpa [hunbounded] using hcovers
  | unbounded =>
    have hnone : b.unbounded = false ∧ b.alternation = false := by
      cases hu : b.unbounded <;> cases ha : b.alternation <;> simp_all [Count.danger?]
    intro q hq
    have hcovers := hb q hq
    simpa [Body.Covers, hnone.1, hnone.2] using hcovers

end Shape

open Reader Shape

variable {s s' : Reader.State} {t : Shape.State} {closing : Bool} {c : Char}
  {cs rest after : List Char}

/-- The scanner looks for the next item, and what it knows covers all levels of the reader.  Right
behind a group it knows the body of the group too. -/
structure Tracks (closing : Bool) (s : Reader.State) (t : Shape.State) : Prop where
  mode : t.mode = .plain
  level : t.body.Tracks s.level
  around : List.Forall₂ Body.Tracks t.around s.around
  closed : closing → ∀ body, s.level.parts.head?.bind groupBody? = some body →
    ∃ b, t.closed = some b ∧ body.All b.Covers

namespace Tracks

/-- The scanner passes over something that adds a part without repetitions and alternatives. -/
lemma push {p : Pattern} (h : Tracks closing s t) (hp : p.isAtom) :
    Tracks false (s.push p) t.passed :=
  ⟨rfl, h.level.push (all_of_isAtom hp (Body.covers_of_isAtom hp)), h.around, Bool.noConfusion⟩

/-- A repetition of a group that the scanner lets pass is safe. -/
lemma repeatLast {least : Nat} {most : Option Nat} {n : Count} (h : Tracks closing s t)
    (hs : s.repeatLast? least most = some s')
    (hn : most = none → n = .unbounded) : Tracks false s' (t.repeated n) := by
  obtain ⟨p, parts, hparts, rfl⟩ := State.repeatLast?_eq_some hs
  have hlevel : (t.repeated n).body.Tracks s.level := by
    refine h.level.mono (fun hu => ?_) fun ha => ha
    simp [State.repeated, hu]
  refine ⟨rfl, ⟨?_, hlevel.branches⟩, h.around, Bool.noConfusion⟩
  refine hlevel.patterns.repeatLast Body.covers_empty hparts ⟨fun hunbounded => ?_, ?_⟩
  · cases most with
    | none => simp [State.repeated, hn rfl]
    | some => simp [isUnbounded] at hunbounded
  · exact Bool.noConfusion

/-- Another branch begins. -/
lemma branch (h : Tracks closing s t) :
    Tracks false s.branch { t.passed with body := { t.body with alternation := true } } := by
  have hlevel : Body.Tracks { t.body with alternation := true } s.level :=
    h.level.mono (fun hu => hu) fun _ => rfl
  refine ⟨rfl, ⟨?_, fun _ => rfl⟩, h.around, Bool.noConfusion⟩
  exact hlevel.patterns.branch Body.covers_empty Body.covers_concat

/-- A group is opened. -/
lemma opened (h : Tracks closing s t) (hopens : Opens s s') : Tracks false s' t.opened := by
  refine ⟨rfl, ⟨Level.all_of_nil hopens.branches hopens.parts, ?_⟩, ?_, Bool.noConfusion⟩
  · exact fun hne => absurd hopens.branches hne
  · rw [hopens.around]
    exact .cons h.level h.around

/-- A group is closed. -/
lemma close (h : Tracks closing s t) (hclose : s.close? = some s') :
    ∃ parent around, t.around = parent :: around ∧ Tracks true s' (t.closedBy parent around) := by
  obtain ⟨outer, levels, haround, haround', hlevel⟩ := State.close?_eq_some hclose
  have hall := h.around
  rw [haround] at hall
  obtain ⟨parent, around, hparent, htracks, hbodies⟩ := List.forall₂_cons_right_iff.mp hall
  refine ⟨parent, around, hbodies, rfl, ?_, ?_, fun _ body hbody => ⟨t.body, rfl, ?_⟩⟩
  · rw [hlevel]
    have hparent' : (t.closedBy parent around).body.Tracks outer := by
      refine hparent.mono (fun hu => ?_) fun ha => ?_
      · simp [State.closedBy, hu]
      · simp [State.closedBy, ha]
    refine hparent'.push (all_group (Body.covers_group _) ?_)
    refine h.level.pattern.imp fun q hq => hq.mono (fun hu => ?_) fun ha => ?_
    · simp [State.closedBy, hu]
    · simp [State.closedBy, ha]
  · rw [haround']
    exact htracks
  · rw [hlevel] at hbody
    obtain rfl : s.level.pattern = body := by simpa [groupBody?] using hbody
    exact h.level.pattern

/-- What the scanner lets pass is allowed. -/
lemma allows {n : Count} {body : Pattern} (h : Tracks closing s t)
    (hbehind : (s.level.parts.head?.bind groupBody?).isSome → closing)
    (hdanger : t.closed.bind n.danger? = none)
    (hbody : s.level.parts.head?.bind groupBody? = some body) : n.Allows body := by
  obtain ⟨b, hclosed, hcovers⟩ := h.closed (hbehind (by rw [hbody]; rfl)) body hbody
  rw [hclosed, Option.bind_some] at hdanger
  exact Count.allows_of_danger? hdanger hcovers

/-- **What an item preserves.**  If the scanner, which follows the reader, lets a plain item pass,
then the item is safe, and the scanner still follows the reader. -/
theorem step (h : Tracks closing s t) (hstep : Step s rest c s' after)
    (hquiet : s.flags.Quiet (c :: rest))
    (hbehind : (count? s.flags c rest).isSome →
      (s.level.parts.head?.bind groupBody?).isSome → closing)
    (hranges : ∀ text, c = '[' → rest = text ++ after → ¬ ['-', '['] <:+: text)
    (hscan : scan t (c :: rest) = none) :
    (∀ n body, count? s.flags c rest = some n →
      s.level.parts.head?.bind groupBody? = some body → n.Allows body) ∧
      ∃ t', scan t' after = none ∧ Tracks (c == ')') s' t' := by
  -- a repetition, which may be reluctant
  have hrepeat : ∀ {n : Count} {mode : Mode} {least : Nat} {most : Option Nat} {s' : Reader.State}
      {behind : List Char}, count? s.flags c rest = some n →
        t.step c rest = t.repeatLast n mode → s.repeatLast? least most = some s' →
        (most = none → n = .unbounded) →
        scan { t.repeated n with mode } rest = scan (t.repeated n) behind →
        (∀ n body, count? s.flags c rest = some n →
          s.level.parts.head?.bind groupBody? = some body → n.Allows body) ∧
          ∃ t', scan t' (skipReluctant behind) = none ∧ Tracks false s' t' := by
    intro n mode least most s' behind hcount hmode hs hn hbounds
    obtain ⟨hdanger, hpass⟩ := scan_repeatLast hmode hscan
    rw [hcount] at hbehind ⊢
    refine ⟨fun n' body hn' hbody => ?_, t.repeated n, ?_, h.repeatLast hs hn⟩
    · obtain rfl := Option.some.inj hn'
      exact h.allows (hbehind rfl) hdanger hbody
    · rw [scan_skipReluctant, ← hbounds]
      exact hpass
  -- an item that is no repetition
  have hother : count? s.flags c rest = none →
      (∃ t', scan t' after = none ∧ Tracks (c == ')') s' t') →
        (∀ n body, count? s.flags c rest = some n →
          s.level.parts.head?.bind groupBody? = some body → n.Allows body) ∧
          ∃ t', scan t' after = none ∧ Tracks (c == ')') s' t' :=
    fun hcount hscanner => ⟨fun n body hn => by rw [hcount] at hn; simp at hn, hscanner⟩
  cases hstep with
  | group hgroup =>
    refine hother rfl ?_
    rcases scan_group hquiet.tail hgroup h.mode with ⟨⟨flags, rfl⟩, hpass⟩ | ⟨hopens, hpass⟩
    · exact ⟨_, hpass.symm.trans hscan, rfl, h.level, h.around, Bool.noConfusion⟩
    · exact ⟨_, hpass ▸ hscan, h.opened hopens⟩
  | close hclose =>
    obtain ⟨parent, around, haround, htracks⟩ := h.close hclose
    exact hother rfl ⟨_, scan_close h.mode haround ▸ hscan, htracks⟩
  | branch => exact hother rfl ⟨_, scan_bar h.mode ▸ hscan, h.branch⟩
  | option hs => exact hrepeat rfl (by rw [State.step, h.mode]; rfl) hs nofun rfl
  | star hs => exact hrepeat rfl (by rw [State.step, h.mode]; rfl) hs (fun _ => rfl) rfl
  | plus hs => exact hrepeat rfl (by rw [State.step, h.mode]; rfl) hs (fun _ => rfl) rfl
  | @counted _ least most behind hbounds hs =>
    obtain ⟨length, hcounted, hlength, hdrop⟩ := counted?_of_bounds? hquiet.tail hbounds
    have hbehind' : s.flags.Quiet behind := by
      rw [← hdrop]
      exact hquiet.of_suffix ((List.drop_suffix _ _).trans (List.suffix_cons _ _))
    rw [hbehind'.skip_eq]
    have hcount : count? s.flags '{' rest = some (.of (isExact s.flags rest) most) := by
      rw [count?, hbounds, Option.map_some]
    have hmode : t.step '{' rest =
        t.repeatLast (.of (isExact s.flags rest) most) (.skipping length) := by
      rw [State.step, h.mode]
      simp [State.plain, hcounted]
    refine hrepeat hcount hmode hs ?_ ?_
    · rintro rfl
      rfl
    · rw [scan_skipping hlength, hdrop]
      rfl
  | oneOf hclass =>
    obtain ⟨text, htext, hpass⟩ := scan_class hquiet.tail hclass
    have hcs := hpass (hranges text rfl htext) t h.mode
    exact hother rfl ⟨_, hcs ▸ hscan, h.push (isAtom_of_class? hclass)⟩
  | escape hescape =>
    have hcs := scan_escape (.of_escape? hquiet.tail hescape) h.mode
    exact hother rfl ⟨_, hcs ▸ hscan, h.push (isAtom_of_escape? hescape)⟩
  | single hc hp =>
    have hclosing : (c == ')') = false := by
      refine beq_eq_false_iff_ne.mpr ?_
      rintro rfl
      exact absurd hc (by decide)
    refine hother (count?_of_isOrdinary hc) ⟨_, scan_ordinary h.mode hc ▸ hscan, ?_⟩
    rw [hclosing]
    exact h.push hp

end Tracks

/-! ## Texts that are read plainly -/

/-- The characters of an item. -/
def Reader.Item.consumed (i : Item) : List Char := i.chars.take (i.chars.length - i.after.length)

/-- An item that the scanner reads like the reader: nothing is left out under the verbose flag, a
repetition of a group stands right behind the parenthesis that closes the group, and no hyphen in a
class stands before an opening bracket. -/
structure Reader.Item.IsPlain (i : Item) : Prop where
  quiet : i.state.flags.Quiet i.text
  behind : i.count?.isSome → i.body?.isSome → i.closing
  ranges : i.chars.head? = some '[' → ¬ ['-', '['] <:+: i.consumed

/-- Every item of a text is one that the scanner reads like the reader. -/
def IsPlain (text : String) : Prop := ∀ i ∈ items text, i.IsPlain

instance (f : Flags) (cs : List Char) : Decidable (f.Quiet cs) :=
  inferInstanceAs (Decidable (f.verbose → ∀ c ∈ cs, Text.isBlank c = false ∧ c ≠ '#'))

instance (i : Item) : Decidable i.IsPlain :=
  decidable_of_iff (i.state.flags.Quiet i.text ∧
      (i.count?.isSome → i.body?.isSome → i.closing) ∧
      (i.chars.head? = some '[' → ¬ ['-', '['] <:+: i.consumed))
    ⟨fun h => ⟨h.1, h.2.1, h.2.2⟩, fun h => ⟨h.quiet, h.behind, h.ranges⟩⟩

instance (text : String) : Decidable (IsPlain text) :=
  inferInstanceAs (Decidable (∀ i ∈ items text, i.IsPlain))

/-- What the scanner lets pass is safe, item by item. -/
lemma Tracks.run {steps : Nat} (h : Tracks closing s t)
    (hplain : ∀ i ∈ Reader.items steps closing s cs, i.IsPlain)
    (hscan : scan t cs = none) : ∀ i ∈ Reader.items steps closing s cs, i.IsSafe := by
  induction steps generalizing closing s t cs with
  | zero => exact fun i hi => absurd hi List.not_mem_nil
  | succ steps ih =>
    rw [Reader.items] at hplain ⊢
    cases hcs : s.flags.skip cs with
    | nil => exact fun i hi => absurd hi List.not_mem_nil
    | cons c rest =>
      simp only [hcs] at hplain ⊢
      cases hstep : step? s c rest with
      | none => exact fun i hi => absurd hi List.not_mem_nil
      | some x =>
        obtain ⟨s', after⟩ := x
        simp only [hstep] at hplain ⊢
        obtain ⟨hitem, hitems⟩ := List.forall_mem_cons.mp hplain
        have hchars : cs = c :: rest := hitem.quiet.skip_eq.symm.trans hcs
        have hranges : ∀ text, c = '[' → rest = text ++ after → ¬ ['-', '['] <:+: text := by
          rintro text rfl rfl
          have hconsumed : Item.consumed ⟨s, cs, after, closing⟩ = '[' :: text := by
            rw [Item.consumed, Item.chars, hcs, ← List.cons_append, List.length_append,
              Nat.add_sub_cancel, List.take_left]
          have hno := hitem.ranges (by rw [Item.chars, hcs, List.head?_cons])
          rw [hconsumed] at hno
          exact fun hoccurs => hno (hoccurs.trans (List.suffix_cons _ _).isInfix)
        have hcount : Item.count? ⟨s, cs, after, closing⟩ = count? s.flags c rest := by
          simp only [Item.count?, Item.chars, hcs]
        obtain ⟨hsafe, t', hscan', htracks⟩ := h.step (.of_step? hstep) (hchars ▸ hitem.quiet)
          (hcount ▸ hitem.behind) hranges (hchars ▸ hscan)
        refine List.forall_mem_cons.mpr ⟨fun n body hn hbody => ?_, ih htracks hitems hscan'⟩
        exact hsafe n body (hcount ▸ hn) hbody

/-- **No group of an accepted pattern is repeated more often than what is inside it allows**, if the
pattern is one that the scanner reads like the reader: neither in the tree nor, item by item, in the
text. -/
theorem isSafe_of_accepted {l : Limits} {text : String} (hplain : IsPlain text)
    (h : l.patternError? text = none) :
    ∃ p, compile? text = some p ∧ p.IsSafe ∧ ∀ i ∈ items text, i.IsSafe := by
  have haccepted : ∃ p, compile? text = some p ∧ danger? text = none := by
    unfold Limits.patternError? at h
    split at h
    · simp at h
    · rw [Option.map_eq_none_iff, Limits.unsafeReason?] at h
      split at h
      · simp at h
      · next p hp => exact ⟨p, hp, Option.map_eq_none_iff.mp h⟩
  obtain ⟨p, hp, hdanger⟩ := haccepted
  have hread : read? text = some p := by
    unfold compile? at hp
    split at hp
    · next q hq =>
      split at hp
      · exact hq.trans hp
      · simp at hp
    · simp at hp
  have hstart : Tracks false {} {} :=
    ⟨rfl, ⟨Level.all_of_nil rfl rfl, fun hne => absurd rfl hne⟩, .nil, Bool.noConfusion⟩
  have hitems : ∀ i ∈ items text, i.IsSafe := hstart.run hplain hdanger
  exact ⟨p, hp, isSafe_of_items hread hitems, hitems⟩

/-- A text with two repeated groups, of which one has a repetition without bound inside. -/
theorem isSafe_of_accepted_twoGroups :
    let text := "(?i)(a+)b(cd)+[x-z]{2,3}"
    IsPlain text ∧ Limits.patternError? {} text = none ∧
      ∃ p, compile? text = some p ∧ p.IsSafe ∧ ∀ i ∈ items text, i.IsSafe := by
  have hplain : IsPlain "(?i)(a+)b(cd)+[x-z]{2,3}" := by decide
  have haccepted : Limits.patternError? {} "(?i)(a+)b(cd)+[x-z]{2,3}" = none := by decide
  exact ⟨hplain, haccepted, isSafe_of_accepted hplain haccepted⟩

/-- A text that is accepted under the usual limits although its tree is not safe. -/
def IsMissed (text : String) : Prop :=
  Limits.patternError? {} text = none ∧ ∃ p, compile? text = some p ∧ ¬ p.IsSafe

instance (text : String) : Decidable (IsMissed text) :=
  decidable_of_iff
    (Limits.patternError? {} text = none ∧ (compile? text).any fun p => ¬ p.IsSafe)
    (by simp [IsMissed, Option.any_eq_true])

/-- Each condition on the text is needed.  In all of these patterns a group that repeats without
bound is itself repeated without bound: behind a blank, behind another repetition, behind a flag
directive, and behind a class with a range that ends with an opening bracket. -/
theorem accepted_not_isSafe :
    IsMissed "(?x)(a+) +" ∧ IsMissed "(a+)?+" ∧ IsMissed "(a+)(?i)+" ∧ IsMissed "[A-[](a+)+" := by
  refine ⟨?blank, ?repetition, ?directive, ?range⟩ <;> decide

end Pattern

end EntityFilter
