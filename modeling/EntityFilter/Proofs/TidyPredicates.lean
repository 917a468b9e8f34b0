import EntityFilter.Proofs.Connectives
import EntityFilter.Proofs.Requests

/-!
# Tidy predicates

A connective is tidy if it could not have been written with fewer: a conjunction or a disjunction
has two parts or more and none of its own sort among them, and a negation is not of a negation.  The
constructors take apart one level only, so that a connective is tidy depends on what its parts
looked like before.  `Predicate.isNormal_iff_standsIn` says that the normal form, which goes by
recursion, is the same as every predicate that stands inside being tidy, at whatever depth and
behind whatever existence tests.

A compiled filter has predicates in two places: its own, and those that pick the rows of aggregates.
All of them are tidy throughout (`Compiler.tidy_of_compile`).
-/

namespace EntityFilter

namespace Predicate

variable {p q r : Predicate} {ps : List Predicate}

/-! ## What stands in a predicate -/

/-- The predicates right below a connective or an existence test. -/
def children : Predicate → List Predicate
  | all ps | any ps => ps
  | negation p => [p]
  | existence _ _ p => p.toList
  | _ => []

/-- A predicate is the other one, or stands somewhere below it. -/
inductive StandsIn (q : Predicate) : Predicate → Prop where
  | itself : StandsIn q q
  | inside {r p : Predicate} : r ∈ p.children → StandsIn q r → StandsIn q p

/-- Whether the outermost connective, if there is one, has enough parts and the right ones. -/
def IsTidy : Predicate → Prop
  | all ps => 2 ≤ ps.length ∧ ∀ p ∈ ps, ¬p.isConjunction
  | any ps => 2 ≤ ps.length ∧ ∀ p ∈ ps, ¬p.isDisjunction
  | negation p => ¬p.isNegation
  | _ => True

lemma IsNormal.isTidy (h : p.IsNormal) : p.IsTidy := by
  cases p with
  | all | any => exact ⟨h.1, h.2.1⟩
  | negation => exact h.1
  | _ => trivial

/-- A normal form is one all the way down. -/
lemma IsNormal.of_mem_children (h : p.IsNormal) : ∀ q ∈ p.children, q.IsNormal := by
  cases p with
  | all | any => exact areNormal_iff.mp h.2.2
  | negation p =>
    intro q hq
    obtain rfl := List.mem_singleton.mp hq
    exact h.2
  | existence relation entity p =>
    intro q hq
    obtain rfl := Option.mem_toList.mp hq
    exact h
  | _ => simp [children]

lemma IsNormal.of_standsIn (hq : q.StandsIn p) (h : p.IsNormal) : q.IsNormal := by
  induction hq with
  | itself => exact h
  | inside hr _ ih => exact ih (h.of_mem_children _ hr)

mutual

/-- What is tidy throughout is a normal form. -/
theorem isNormal_of_tidy :
    ∀ p : Predicate, (∀ q : Predicate, q.StandsIn p → q.IsTidy) → p.IsNormal
  | all ps, h =>
    have htop : (all ps).IsTidy := h _ .itself
    ⟨htop.1, htop.2, areNormal_of_tidy ps fun _ hp _ hq => h _ (.inside hp hq)⟩
  | any ps, h =>
    have htop : (any ps).IsTidy := h _ .itself
    ⟨htop.1, htop.2, areNormal_of_tidy ps fun _ hp _ hq => h _ (.inside hp hq)⟩
  | negation p, h =>
    have htop : (negation p).IsTidy := h _ .itself
    ⟨htop, isNormal_of_tidy p fun _ hq => h _ (.inside (List.mem_singleton.mpr rfl) hq)⟩
  | existence _ _ (some p), h => by
    rw [IsNormal]
    exact isNormal_of_tidy p fun _ hq => h _ (.inside (List.mem_singleton.mpr rfl) hq)
  | existence _ _ none, _ => trivial
  | compare _ _ _, _ | compareOperands _ _ _, _ | member _ _ _, _ | isNull _ _, _
  | text _ _ _ _, _ | regex _ _ _, _ | keys _ _ _, _ | array _ _ _, _
  | search _ _ _ _, _ => trivial

theorem areNormal_of_tidy :
    ∀ ps : List Predicate,
      (∀ p ∈ ps, ∀ q : Predicate, q.StandsIn p → q.IsTidy) → AreNormal ps
  | [], _ => trivial
  | p :: ps, h =>
    ⟨isNormal_of_tidy p (h p List.mem_cons_self),
      areNormal_of_tidy ps fun p hp => h p (List.mem_cons_of_mem _ hp)⟩

end

/-- **The normal form, read off the predicates inside**: each of them is tidy. -/
theorem isNormal_iff_standsIn : p.IsNormal ↔ ∀ q : Predicate, q.StandsIn p → q.IsTidy :=
  ⟨fun h _ hq => (h.of_standsIn hq).isTidy, isNormal_of_tidy p⟩

end Predicate

/-! ## Compiled filters -/

/-- The predicates of a compiled filter: its own, and those that pick the rows of aggregates. -/
def CompiledFilter.predicates (f : CompiledFilter) : List Predicate :=
  f.predicate.toList ++ f.projections.toList.filterMap (·.expr.filter?)

namespace Compiler

variable {c : Compiler} {f : Filter} {e : Entity}

/-- The rows of an aggregate are picked by the predicate of a filter. -/
lemma isNormal_of_conditionPredicate? {s : Scope} {relation : String} {p : Predicate}
    (h : c.conditionPredicate? s relation f = some p) : p.IsNormal := by
  obtain ⟨target, -, hp⟩ := Option.bind_eq_some_iff.mp h
  exact Filter.isNormal_of_predicate? hp

lemma isNormal_of_mem_projections {r : Projection} {p : Predicate}
    (hr : r ∈ (c.projections f e).toList) (hp : r.expr.filter? = some p) : p.IsNormal := by
  rw [projections_eq_requests] at hr
  obtain ⟨v, -, hr⟩ := List.mem_flatMap.mp (ProjectionSet.mem_of_mem_toList_ofRequests hr)
  rw [Visit.filter?_of_mem_requests hr] at hp
  obtain ⟨a, condition, fingerprint, -, hcondition⟩ := Visit.filter?_eq_some hp
  exact isNormal_of_conditionPredicate? hcondition

lemma isNormal_of_mem_predicates {n : String} {compiled : CompiledFilter} {p : Predicate}
    (h : c.compile f n = .ok compiled) (hp : p ∈ compiled.predicates) : p.IsNormal := by
  obtain ⟨e, -, -, rfl⟩ := compile_eq_ok_iff.mp h
  rcases List.mem_append.mp hp with hp | hp
  · exact Filter.isNormal_of_predicate? (Option.mem_toList.mp hp)
  · obtain ⟨r, hr, hp⟩ := List.mem_filterMap.mp hp
    exact isNormal_of_mem_projections hr hp

/-- **Every connective in a compiled filter is tidy**, at every depth, in the predicate and in the
predicates that pick the rows of aggregates. -/
theorem tidy_of_compile {n : String} {compiled : CompiledFilter}
    (h : c.compile f n = .ok compiled) :
    ∀ p ∈ compiled.predicates, ∀ q : Predicate, q.StandsIn p → q.IsTidy := by
  intro p hp
  exact Predicate.isNormal_iff_standsIn.mp (isNormal_of_mem_predicates h hp)

end Compiler

namespace Shop

/-- Double negations, conjunctions in conjunctions, and a quantifier that makes a conjunction of its
own; and the same in the condition of an aggregate. -/
def entangled : Filter :=
  .node [
    ("NOT", .negation (.node [("NOT", .negation (.node [
      ("name", .field "name" (leaf "eq" (.text "a"))),
      ("id", .id (leaf "in" (.list [.int 1, .int 2])))]))])),
    ("reviews_every", .quantified "reviews" .every
      (.node [("NOT", .negation (.node [("text", .field "text" (leaf "eq" (.text "bad")))]))])),
    ("reviews_cond_agg", .aggregate ⟨"reviews", none, [(.count, leaf "gte" (.int 1))]⟩
      (some (.node [("OR", .any [.node [("text", .field "text" (leaf "eq" (.text "good")))],
        .node [("id", .id (leaf "eq" (.int 7)))]])], 7)))]

end Shop

theorem Compiler.tidy_of_compile_entangled :
    ∃ compiled, Shop.compiler.compile Shop.entangled "Product" = .ok compiled ∧
      compiled.predicates.map Predicate.size = [8, 3] ∧
      ∀ p ∈ compiled.predicates, ∀ q : Predicate, q.StandsIn p → q.IsTidy := by
  have hlimits : Shop.compiler.settings.limits.error? Shop.entangled = none := by
    decide +kernel
  have h := compile_eq_ok (n := "Product") (e := Shop.product) rfl hlimits
  exact ⟨_, h, by decide +kernel, tidy_of_compile h⟩

end EntityFilter
