import EntityFilter.Catalog
import EntityFilter.Proofs.Interpreter
import Mathlib.Tactic.Common

/-!
# Rows along paths of relations

Relations are followed in two ways: a path goes through all of them at once (`Document.related`),
and `Document.rowsAt` and `Document.valueAt` go one step.  The lemmas here take paths apart into
steps.

The rows of a path and the row that single steps lead to are the same as long as no relation to one
row holds an array.  `Document.singleValued` checks this for a row and for all rows that the
relations of the catalog lead to from it.
-/

namespace EntityFilter

namespace Document

-- The equations are made here once, since many proofs below ask for them at the same time.
section
attribute [local simp] follow? related
end

/-! ## Reading along paths -/

lemma follow?_append (d : Document) (path rest : List String) :
    d.follow? (path ++ rest) = (d.follow? path).bind (follow? rest) := by
  induction path generalizing d with
  | nil => rfl
  | cons key path ih =>
    rw [List.cons_append, follow?, follow?]
    cases d.get? key with
    | none => rfl
    | some inner => exact ih inner

lemma follow?_single (d : Document) (name : String) : d.follow? [name] = d.get? name := by
  rw [follow?]
  cases d.get? name <;> rfl

lemma related_append (d : Document) (path rest : List String) :
    d.related (path ++ rest) = (d.related path).flatMap (·.related rest) := by
  induction path generalizing d with
  | nil => simp [related]
  | cons relation path ih =>
    rw [List.cons_append, related, related, List.flatMap_assoc]
    exact congrArg (List.flatMap · _) (funext ih)

lemma related_single (d : Document) (name : String) : d.related [name] = d.rowsAt name := by
  simp [related, rowsAt]

lemma related_cons (d : Document) (name : String) (path : List String) :
    d.related (name :: path) = (d.rowsAt name).flatMap (·.related path) := by
  rw [related, rowsAt]

lemma mem_rowsAt {row x : Document} {name : String} :
    x ∈ row.rowsAt name ↔ ∃ d, row.get? name = some d ∧ x ∈ d.rows := by
  rw [rowsAt]
  cases row.get? name <;> simp

/-- What rows hand on to the rows in their members holds of all related rows. -/
lemma forall_mem_related {P : Document → Prop}
    (hstep : ∀ row name d, P row → row.get? name = some d → ∀ x ∈ d.rows, P x)
    (path : List String) {row : Document} (h : P row) : ∀ x ∈ row.related path, P x := by
  induction path generalizing row with
  | nil =>
    intro x hx
    obtain rfl := List.mem_singleton.mp hx
    exact h
  | cons name path ih =>
    intro x hx
    rw [related_cons] at hx
    obtain ⟨y, hy, hx⟩ := List.mem_flatMap.mp hx
    obtain ⟨d, hd, hy⟩ := mem_rowsAt.mp hy
    exact ih (hstep row name d h hd y hy) x hx

/-! ## Rows without arrays behind relations to one row -/

/-- Whether a document is an array. -/
def isArray : Document → Bool
  | array _ => true
  | _ => false

mutual

/-- Whether no relation to one row holds an array: in a row of an entity, and in the rows that its
relations lead to. -/
def singleValued (c : Catalog) (e : Entity) : Document → Bool
  | object members => singleValuedMembers c e members
  | _ => true

/-- Whether no relation to one row holds an array, in the members of a row. -/
def singleValuedMembers (c : Catalog) (e : Entity) : List (String × Document) → Bool
  | [] => true
  | (name, d) :: members =>
    (match c.resolve? e name with
      | some (r, target) => !(r.isToOne && d.isArray) && singleValuedRows c target d
      | none => true) &&
    singleValuedMembers c e members

/-- Whether no relation to one row holds an array, in the rows that a member holds. -/
def singleValuedRows (c : Catalog) (e : Entity) : Document → Bool
  | object members => singleValuedMembers c e members
  | array items => singleValuedItems c e items
  | _ => true

/-- Whether no relation to one row holds an array, in rows. -/
def singleValuedItems (c : Catalog) (e : Entity) : List Document → Bool
  | [] => true
  | d :: ds => singleValued c e d && singleValuedItems c e ds

end

variable {c : Catalog} {e target : Entity} {row d : Document} {name : String} {r : Relation}

lemma singleValued_of_get? (h : row.singleValued c e) (hd : row.get? name = some d)
    (hr : c.resolve? e name = some (r, target)) :
    (r.isToOne → ¬d.isArray) ∧ d.singleValuedRows c target := by
  cases row with
  | object members =>
    simp only [singleValued] at h
    simp only [get?] at hd
    induction members with
    | nil => simp [Entries.get?] at hd
    | cons member members ih =>
      obtain ⟨key, value⟩ := member
      simp only [singleValuedMembers, Bool.and_eq_true] at h
      by_cases hk : key = name
      · subst hk
        simp only [Entries.get?, if_true, Option.some.injEq] at hd
        subst hd
        simp only [hr, Bool.and_eq_true] at h
        refine ⟨fun ho harray => ?_, h.1.2⟩
        simp [ho, harray] at h
      · simp only [Entries.get?, hk, if_false] at hd
        exact ih h.2 hd
  | _ => simp [get?] at hd

lemma singleValued_of_mem_items {items : List Document} (h : singleValuedItems c e items)
    (hd : d ∈ items) : d.singleValued c e := by
  induction items with
  | nil => simp at hd
  | cons item items ih =>
    simp only [singleValuedItems, Bool.and_eq_true] at h
    rcases List.mem_cons.mp hd with rfl | hd
    · exact h.1
    · exact ih h.2 hd

lemma singleValued_of_mem_rows (h : d.singleValuedRows c e) : ∀ x ∈ d.rows, x.singleValued c e := by
  intro x hx
  cases d with
  | object members =>
    obtain rfl := List.mem_singleton.mp hx
    exact h
  | array items => exact singleValued_of_mem_items h hx
  | _ => simp [rows] at hx

lemma singleValued_of_not_isArray (h : d.singleValuedRows c e) (hd : ¬d.isArray) :
    d.singleValued c e := by
  cases d with
  | array items => simp [isArray] at hd
  | object members => exact h
  | _ => rfl

/-- The row that a relation leads to has the rows of a relation behind it. -/
lemma rowsAt_valueAt (h : ∀ d, row.get? name = some d → ¬d.isArray) (next : String) :
    (row.rowsAt name).flatMap (·.rowsAt next) = (row.valueAt name).rowsAt next := by
  unfold rowsAt valueAt
  cases hd : row.get? name with
  | none => rfl
  | some d =>
    have harray := h d hd
    cases d with
    | array items => simp [isArray] at harray
    | object members => simp [rows]
    | _ => rfl

end Document

end EntityFilter
