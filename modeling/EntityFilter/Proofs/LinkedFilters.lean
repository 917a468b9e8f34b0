import EntityFilter.Limits
import EntityFilter.Proofs.Connectives
import EntityFilter.Proofs.FilterKeys
import EntityFilter.Proofs.Reach

/-!
# Filters at the end of a chain

A filter on related rows stands behind a key that names the relation, so a filter on rows that are
several relations away stands behind a chain of such keys.  A chain leaves the filter at its end
alone: it is read as it would be read by itself (`Filter.ofDocument?_behind`), it collects what it
would collect in the scope that the chain leads to (`Filter.collect_behind`), and what the whole
says tells apart what the filter at the end says (`Filter.predicate?_behind_inj`).  Only depth and
size grow, by one for each key.
-/

namespace EntityFilter

namespace Predicate

/-- A predicate in normal form, or nothing, is the conjunction of itself. -/
lemma and?_toList {p : Option Predicate} (hp : ∀ q, p = some q → q.IsNormal) :
    and? p.toList = p := by
  cases p with
  | none => rfl
  | some q =>
    cases q with
    | all ps =>
      obtain ⟨hlength, -⟩ := hp _ rfl
      match ps, hlength with
      | first :: second :: rest, _ => simp [and?, conjuncts]
    | _ => rfl

/-- Two negations of a normal predicate cancel. -/
lemma IsNormal.not_not {p : Predicate} (hp : p.IsNormal) : p.not.not = p := by
  cases p with
  | negation q =>
    obtain ⟨hone, -⟩ := hp
    cases q with
    | negation _ => exact absurd rfl hone
    | _ => rfl
  | _ => rfl

/-- Normal predicates are told apart by what they deny. -/
lemma IsNormal.not_inj {p q : Predicate} (hp : p.IsNormal) (hq : q.IsNormal) (h : p.not = q.not) :
    p = q := by
  rw [← hp.not_not, h, hq.not_not]

end Predicate

/-- Quantifiers tell predicates on a row apart. -/
lemma Quantifier.predicate_inj (quantifier : Quantifier) {path : RelationPath} {entity : String}
    {p q : Option Predicate} (hp : ∀ r, p = Option.some r → r.IsNormal)
    (hq : ∀ r, q = Option.some r → r.IsNormal)
    (h : quantifier.predicate path entity p = quantifier.predicate path entity q) : p = q := by
  cases quantifier with
  | some => exact (Predicate.existence.inj h).2.2
  | none => exact (Predicate.existence.inj (Predicate.negation.inj h)).2.2
  | every =>
    cases p with
    | none =>
      cases q with
      | none => rfl
      | some q => cases h
    | some p =>
      cases q with
      | none => cases h
      | some q =>
        have hparts := Predicate.all.inj h
        simp only [Predicate.conjuncts, Predicate.not, List.cons_append, List.nil_append,
          List.cons.injEq, Predicate.negation.injEq, Predicate.existence.injEq, true_and,
          and_true, Option.some.injEq] at hparts
        rw [(hp p rfl).not_inj (hq q rfl) hparts]

/-! ## One key -/

/-- A key behind which a filter on related rows stands: it names a relation, and a quantifier if the
relation leads to many rows. -/
structure Link where
  /-- The relation. -/
  relation : String
  /-- How the rows are tested. -/
  quantifier : Option Quantifier := none

namespace Link

/-- The key. -/
def key (l : Link) : FilterKey :=
  match l.quantifier with
  | none => .related l.relation
  | some quantifier => .quantified l.relation quantifier

/-- The document with one member, which stands behind the key. -/
def document (l : Link) (d : Document) : Document := .object [(l.key.written, d)]

/-- The entry that holds a filter on the related rows. -/
def entry (l : Link) (f : Filter) : FilterEntry :=
  match l.quantifier with
  | none => .related l.relation f
  | some quantifier => .quantified l.relation quantifier f

/-- The filter with one entry, which holds a filter on the related rows. -/
def filter (l : Link) (f : Filter) : Filter := .node [(l.key.written, l.entry f)]

/-- The scope of the filter on the related rows. -/
def scope? (c : Compiler) (s : Scope) (l : Link) : Option Scope :=
  match l.quantifier with
  | none => c.joinedScope? s l.relation
  | some _ => c.rowsScope? s l.relation

variable {l : Link} {c : Compiler} {set : ProjectionSet} {s inner : Scope} {f g : Filter}

lemma key_eq_related_iff {name : String} :
    l.key = .related name ↔ l.relation = name ∧ l.quantifier = none := by
  unfold key
  split <;> simp [*]

lemma key_eq_quantified_iff {name : String} {quantifier : Quantifier} :
    l.key = .quantified name quantifier ↔ l.relation = name ∧ l.quantifier = some quantifier := by
  unfold key
  split <;> simp [*]

lemma ofName_written (h : l.relation ≠ "") : FilterKey.ofName l.key.written = l.key := by
  unfold key
  split
  · exact FilterKey.ofName_related h
  · exact FilterKey.ofName_quantified h _

lemma ofDocument?_document (h : l.relation ≠ "") {d : Document}
    (hd : Filter.ofDocument? d = some f) :
    Filter.ofDocument? (l.document d) = some (l.filter f) := by
  have hentry : FilterEntry.ofDocument? l.key d = some (l.entry f) := by
    unfold key entry
    split <;> simp only [FilterEntry.ofDocument?, hd, Option.map_some]
  simp only [document, filter, Filter.ofDocument?, FilterEntry.ofMembers, ofName_written h, hentry]

lemma depth_scope? (hs : l.scope? c s = some inner) : inner.depth = s.depth + 1 := by
  unfold scope? at hs
  split at hs
  · obtain ⟨-, r, target, -, -, rfl⟩ := Compiler.joinedScope?_eq_some.mp hs
    exact Scope.depth_join
  · obtain ⟨-, r, target, -, -, rfl⟩ := Compiler.rowsScope?_eq_some.mp hs
    exact Scope.depth_enter

/-- Without a quantifier, the rows that are tested stay the same. -/
lemma isBaseRow_scope? (hs : l.scope? c s = some inner) :
    inner.isBaseRow ↔ s.isBaseRow ∧ l.quantifier = none := by
  unfold scope? at hs
  split at hs
  · next hnone =>
    obtain ⟨-, r, target, -, -, rfl⟩ := Compiler.joinedScope?_eq_some.mp hs
    exact ⟨fun h => ⟨h, hnone⟩, And.left⟩
  · next hsome =>
    obtain ⟨-, r, target, -, -, rfl⟩ := Compiler.rowsScope?_eq_some.mp hs
    simp [hsome, Scope.isBaseRow, Scope.enter, Scope.fullPath, RelationPath.join,
      RelationPath.isEmpty]

lemma depth_filter (l : Link) (f : Filter) : (l.filter f).depth = 1 + f.depth := by
  unfold filter entry
  split <;> simp [Filter.depth, Filter.depthOfEntries, FilterEntry.depth]

lemma allEntries_filter (l : Link) (f : Filter) :
    (l.filter f).allEntries = l.entry f :: f.allEntries := by
  unfold filter entry
  split <;> simp [Filter.allEntries, FilterEntry.allOfEntries, FilterEntry.nested]

lemma patterns_entry (l : Link) (f : Filter) : (l.entry f).patterns = [] := by
  unfold entry
  split <;> rfl

lemma collect_filter (hs : l.scope? c s = some inner) :
    (l.filter f).collect c s set = f.collect c inner set := by
  unfold scope? at hs
  unfold filter entry
  split at hs
  all_goals
    simp only [Filter.collect, FilterEntry.collectAll, FilterEntry.collect, hs]

/-- The predicate of a filter with one entry is that of the entry: identifiers to be included say
nothing alone. -/
lemma predicate?_node {key : String} {e : FilterEntry} :
    (Filter.node [(key, e)]).predicate? c set s = e.predicate? c set s key := by
  have hnormal : ∀ q, e.predicate? c set s key = some q → q.IsNormal := by
    intro q hq
    have hmem : q ∈ FilterEntry.predicates c set s [(key, e)] := by
      simp only [FilterEntry.predicates, List.append_nil]
      exact Option.mem_toList.mpr hq
    exact FilterEntry.isNormal_of_mem_predicates q hmem
  simp only [Filter.predicate?, FilterEntry.predicates, List.append_nil,
    Predicate.and?_toList hnormal]
  cases e with
  | included values => rfl
  | _ => exact Scope.widen?_nil

/-- What the rows behind the key are asked for, given what a filter asks of a row. -/
def predicate? (l : Link) (path : RelationPath) (entity : String) (p : Option Predicate) :
    Option Predicate :=
  match l.quantifier with
  | none => p
  | some quantifier => some (quantifier.predicate path entity p)

lemma predicate?_filter (hs : l.scope? c s = some inner) :
    (l.filter f).predicate? c set s =
      l.predicate? (s.relationPath l.relation) inner.entity.name (f.predicate? c set inner) := by
  unfold scope? at hs
  unfold filter entry predicate?
  split at hs
  all_goals
    rw [predicate?_node]
    simp only [FilterEntry.predicate?, hs]

/-- What stands behind the key is not lost. -/
lemma predicate?_filter_inj (hs : l.scope? c s = some inner)
    (h : (l.filter f).predicate? c set s = (l.filter g).predicate? c set s) :
    f.predicate? c set inner = g.predicate? c set inner := by
  rw [predicate?_filter hs, predicate?_filter hs] at h
  unfold predicate? at h
  split at h
  · exact h
  · exact Quantifier.predicate_inj _ (fun _ hr => Filter.isNormal_of_predicate? hr)
      (fun _ hr => Filter.isNormal_of_predicate? hr) (Option.some.inj h)

end Link

/-! ## Chains of keys -/

/-- The document at the end of a chain of keys. -/
def Document.behind (links : List Link) (d : Document) : Document := links.foldr Link.document d

/-- The filter at the end of a chain of keys. -/
def Filter.behind (links : List Link) (f : Filter) : Filter := links.foldr Link.filter f

/-- The scope at the end of a chain of keys. -/
def Compiler.through? (c : Compiler) (s : Scope) : List Link → Option Scope
  | [] => some s
  | l :: links => (l.scope? c s).bind fun inner => c.through? inner links

section

variable {c : Compiler} {set : ProjectionSet} {s inner : Scope} {f g : Filter} {links : List Link}

lemma Compiler.through?_concat {l : Link} :
    c.through? s (links ++ [l]) = (c.through? s links).bind (Link.scope? c · l) := by
  induction links generalizing s with
  | nil => simp [through?]
  | cons first links ih =>
    simp only [List.cons_append, through?, Option.bind_assoc]
    exact congrArg _ (funext fun _ => ih)

lemma Compiler.depth_through? (hs : c.through? s links = some inner) :
    inner.depth = s.depth + links.length := by
  induction links generalizing s with
  | nil =>
    obtain rfl := Option.some.inj hs
    rfl
  | cons l links ih =>
    obtain ⟨next, hnext, hs⟩ := Option.bind_eq_some_iff.mp hs
    rw [ih hs, Link.depth_scope? hnext, List.length_cons]
    omega

lemma Compiler.isBaseRow_through? (hs : c.through? s links = some inner) :
    inner.isBaseRow ↔ s.isBaseRow ∧ ∀ l ∈ links, l.quantifier = none := by
  induction links generalizing s with
  | nil =>
    obtain rfl := Option.some.inj hs
    simp
  | cons l links ih =>
    obtain ⟨next, hnext, hs⟩ := Option.bind_eq_some_iff.mp hs
    rw [ih hs, Link.isBaseRow_scope? hnext, List.forall_mem_cons, and_assoc]

namespace Filter

/-- **A chain is read as what it is**, with the filter at its end. -/
theorem ofDocument?_behind (hlinks : ∀ l ∈ links, l.relation ≠ "") {d : Document}
    (hd : ofDocument? d = some f) : ofDocument? (d.behind links) = some (f.behind links) := by
  induction links with
  | nil => exact hd
  | cons l links ih =>
    obtain ⟨hl, hlinks⟩ := List.forall_mem_cons.mp hlinks
    exact Link.ofDocument?_document hl (ih hlinks)

lemma depth_behind (links : List Link) (f : Filter) :
    (f.behind links).depth = links.length + f.depth := by
  induction links with
  | nil => exact (Nat.zero_add _).symm
  | cons l links ih =>
    show (l.filter (f.behind links)).depth = _
    rw [Link.depth_filter, ih, List.length_cons]
    omega

lemma clauses_behind (links : List Link) (f : Filter) :
    (f.behind links).clauses = links.length + f.clauses := by
  induction links with
  | nil => exact (Nat.zero_add _).symm
  | cons l links ih =>
    show (l.filter (f.behind links)).allEntries.length = _
    rw [Link.allEntries_filter, List.length_cons, List.length_cons]
    have hrest : (f.behind links).allEntries.length = links.length + f.clauses := ih
    omega

lemma patterns_behind (links : List Link) (f : Filter) :
    (f.behind links).patterns = f.patterns := by
  induction links with
  | nil => rfl
  | cons l links ih =>
    show (l.filter (f.behind links)).allEntries.flatMap FilterEntry.patterns = _
    rw [Link.allEntries_filter, List.flatMap_cons, Link.patterns_entry]
    exact ih

/-- **A chain collects what the filter at its end collects.** -/
theorem collect_behind (hs : c.through? s links = some inner) :
    (f.behind links).collect c s set = f.collect c inner set := by
  induction links generalizing s with
  | nil =>
    obtain rfl := Option.some.inj hs
    rfl
  | cons l links ih =>
    obtain ⟨next, hnext, hs⟩ := Option.bind_eq_some_iff.mp hs
    exact (Link.collect_filter hnext).trans (ih hs)

/-- **What a chain says tells apart what the filter at its end says.** -/
theorem predicate?_behind_inj (hs : c.through? s links = some inner) :
    (f.behind links).predicate? c set s = (g.behind links).predicate? c set s ↔
      f.predicate? c set inner = g.predicate? c set inner := by
  induction links generalizing s with
  | nil =>
    obtain rfl := Option.some.inj hs
    exact Iff.rfl
  | cons l links ih =>
    obtain ⟨next, hnext, hs⟩ := Option.bind_eq_some_iff.mp hs
    refine Iff.trans ⟨Link.predicate?_filter_inj hnext, fun h => ?_⟩ (ih hs)
    show (l.filter _).predicate? c set s = (l.filter _).predicate? c set s
    rw [Link.predicate?_filter hnext, Link.predicate?_filter hnext, h]

end Filter

end

end EntityFilter
