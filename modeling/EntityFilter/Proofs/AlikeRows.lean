import EntityFilter.Proofs.CatalogPaths
import EntityFilter.Proofs.LeafTruth
import EntityFilter.Proofs.Plans
import EntityFilter.Row.Annotation
import Mathlib.Data.List.Forall2

/-!
# Rows that cannot be told apart

A row may hold more than the catalog knows of.  A relation of rows is a likeness
(`Catalog.Likeness`) when two related rows have the same fields and, behind each relation, related
rows again.  Whatever is compiled reads rows along relations and fields of the catalog only, so it
cannot tell such rows apart: neither a predicate without projections
(`Filter.respects_of_predicate?`) nor the expression of a projection
(`Visit.compute?_eq_of_mem_requests`).

Projections themselves are read from the row that holds them, and nothing is said about them here.
Reading stays within the catalog because names do not mix in it (`Catalog.IsSound`); a relation that
is also a field would be read as a whole.
-/

namespace EntityFilter

/-- A relation of rows that no field and no relation of the catalog tells apart. -/
structure Catalog.Likeness (c : Catalog) (R : Entity → Document → Document → Prop) : Prop where
  field : ∀ {e x y name f}, R e x y → e.field? name = some f → x.get? name = y.get? name
  value : ∀ {e x y name r target}, R e x y → c.resolve? e name = some (r, target) →
    R target (x.valueAt name) (y.valueAt name)
  rows : ∀ {e x y name r target}, R e x y → c.resolve? e name = some (r, target) →
    List.Forall₂ (R target) (x.rowsAt name) (y.rowsAt name)

/-! ## Reading along paths -/

namespace Document

lemma follow?_cons_of_ne_nil {path : List String} (h : path ≠ []) (d : Document) (name : String) :
    d.follow? (name :: path) = (d.valueAt name).follow? path := by
  rw [follow?, valueAt]
  cases d.get? name with
  | some inner => rfl
  | none =>
    cases path with
    | nil => exact absurd rfl h
    | cons => rfl

end Document

namespace Catalog.Likeness

variable {c : Catalog} {R : Entity → Document → Document → Prop} {e target : Entity}
  {x y : Document} {path : List String} {name : String} {f : Field}

lemma follow? (hR : c.Likeness R) (hxy : R e x y) (hpath : c.along? e path = some target)
    (hf : target.field? name = some f) :
    x.follow? (path ++ [name]) = y.follow? (path ++ [name]) := by
  induction path generalizing e x y with
  | nil =>
    obtain rfl := Option.some.inj hpath
    rw [List.nil_append, Document.follow?_single, Document.follow?_single]
    exact hR.field hxy hf
  | cons relation path ih =>
    obtain ⟨r, next, hr, hpath⟩ := along?_cons_eq_some.mp hpath
    have hne : path ++ [name] ≠ [] := List.append_ne_nil_of_right_ne_nil _ (List.cons_ne_nil _ _)
    rw [List.cons_append, Document.follow?_cons_of_ne_nil hne, Document.follow?_cons_of_ne_nil hne]
    exact ih (hR.value hxy hr) hpath

lemma related (hR : c.Likeness R) (hxy : R e x y) (hpath : c.along? e path = some target) :
    List.Forall₂ (R target) (x.related path) (y.related path) := by
  induction path generalizing e x y with
  | nil =>
    obtain rfl := Option.some.inj hpath
    exact .cons hxy .nil
  | cons relation path ih =>
    obtain ⟨r, next, hr, hpath⟩ := along?_cons_eq_some.mp hpath
    rw [Document.related_cons, Document.related_cons]
    exact List.rel_flatMap (hR.rows hxy hr) fun _ _ h => ih h hpath

/-- A field at the end of a path has the same value. -/
lemma value? (hR : c.Likeness R) (hxy : R e x y) {path : RelationPath}
    (hpath : c.along? e path.segments = some target) (hf : target.field? name = some f)
    (b b' : Document) :
    (Operand.field (.under path name)).value? ⟨x, b⟩ =
      (Operand.field (.under path name)).value? ⟨y, b'⟩ := by
  have hread : x.readField? (.under path name) = y.readField? (.under path name) :=
    hR.follow? hxy hpath hf
  unfold Operand.value? Operand.find?
  simp only [hread]

lemma valueAt (hR : c.Likeness R) (hxy : R e x y) (hf : e.field? name = some f) :
    x.valueAt name = y.valueAt name := by
  rw [Document.valueAt, Document.valueAt, hR.field hxy hf]

end Catalog.Likeness

/-- Functions that agree on related items make the same list of related lists. -/
lemma map_eq_of_forall₂ {α β γ : Type} {R : α → β → Prop} {xs : List α} {ys : List β}
    {f : α → γ} {g : β → γ} (h : List.Forall₂ R xs ys) (hfg : ∀ x y, R x y → f x = g y) :
    xs.map f = ys.map g := by
  induction h with
  | nil => rfl
  | cons hxy _ ih => rw [List.map_cons, List.map_cons, hfg _ _ hxy, ih]

/-! ## Predicates -/

/-- A predicate that does not tell rows apart, tested on the row from which the scope joins its
entity. -/
def Scope.Respects (c : Catalog) (R : Entity → Document → Document → Prop) (s : Scope)
    (p : Predicate) : Prop :=
  ∀ base, base.IsSound → c.along? base s.joined.segments = some s.entity →
    ∀ x y, R base x y → ∀ b b', p.holds ⟨x, b⟩ = p.holds ⟨y, b'⟩

/-- A leaf on a field reads nothing but the field. -/
lemma Leaf.holds_eq_of_value? {l : Leaf} {path : FieldPath} {kind : FieldKind} {now : Instant}
    {p : Predicate} {ctx ctx' : RowContext} (hp : l.predicate? (.field path) kind now = some p)
    (h : (Operand.field path).value? ctx = (Operand.field path).value? ctx') :
    p.holds ctx = p.holds ctx' := by
  have hholds : (l.predicate? (.field path) kind now).map (·.holds ctx) =
      (l.test? true kind now).map (· ((Operand.field path).value? ctx)) :=
    l.map_holds_predicate?_field path
  rw [h, ← l.map_holds_predicate?_field path, hp] at hholds
  exact Option.some.inj hholds

namespace Scope.Respects

variable {c : Catalog} {R : Entity → Document → Document → Prop} {s : Scope} {target : Entity}
  {name : String} {r : Relation} {p : Predicate} {ps : List Predicate}

lemma and? (h : ∀ q ∈ ps, s.Respects c R q) (hp : Predicate.and? ps = some p) :
    s.Respects c R p := by
  intro base hbase hjoined x y hxy b b'
  have hsame : ps.map (·.holds ⟨x, b⟩) = ps.map (·.holds ⟨y, b'⟩) :=
    List.map_congr_left fun q hq => h q hq base hbase hjoined x y hxy b b'
  rw [Predicate.holds_of_and? hp, Predicate.holds_of_and? hp]
  simpa [List.all_map, Function.comp_def] using congrArg (List.all · id) hsame

lemma or? (h : ∀ q ∈ ps, s.Respects c R q) (hp : Predicate.or? ps = some p) :
    s.Respects c R p := by
  intro base hbase hjoined x y hxy b b'
  have hsame : ps.map (·.holds ⟨x, b⟩) = ps.map (·.holds ⟨y, b'⟩) :=
    List.map_congr_left fun q hq => h q hq base hbase hjoined x y hxy b b'
  rw [Predicate.holds_of_or? hp, Predicate.holds_of_or? hp]
  simpa [List.any_map, Function.comp_def] using congrArg (List.any · id) hsame

lemma not (h : s.Respects c R p) : s.Respects c R p.not := by
  intro base hbase hjoined x y hxy b b'
  rw [Predicate.holds_not, Predicate.holds_not, h base hbase hjoined x y hxy b b']

lemma join (hr : c.resolve? s.entity name = some (r, target))
    (h : (s.join name target).Respects c R p) : s.Respects c R p := by
  intro base hbase hjoined
  refine h base hbase ?_
  show c.along? base (s.joined.segments ++ [name]) = some target
  rw [Catalog.along?_append, hjoined]
  exact Catalog.along?_single hr

lemma existence (hR : c.Likeness R)
    (hr : c.resolve? s.entity name = some (r, target)) {p : Option Predicate}
    (h : ∀ q, p = some q → ∀ {x y}, R target x y → q.holdsOf x = q.holdsOf y) :
    s.Respects c R (.existence (s.relationPath name) target.name p) := by
  intro base hbase hjoined x y hxy b b'
  have halong : c.along? base (s.relationPath name).segments = some target := by
    show c.along? base (s.joined.segments ++ [name]) = some target
    rw [Catalog.along?_append, hjoined]
    exact Catalog.along?_single hr
  have hrows := hR.related hxy halong
  cases p with
  | none =>
    have hsame := map_eq_of_forall₂ (f := fun _ => ()) (g := fun _ => ()) hrows fun _ _ _ => rfl
    simp only [Predicate.holds]
    rw [← List.isEmpty_map (f := fun _ => ()), hsame, List.isEmpty_map]
  | some q =>
    have hsame := map_eq_of_forall₂ (f := q.holdsOf) (g := q.holdsOf) hrows fun _ _ => h q rfl
    have hany : ∀ rows : List Document,
        rows.any (fun row => q.holds (.ofRow row)) = (rows.map q.holdsOf).any id := by
      intro rows
      rw [List.any_map]
      rfl
    show (x.related _).any _ = (y.related _).any _
    rw [hany, hany, hsame]

/-- A leaf on a field of the entity. -/
lemma leaf (hR : c.Likeness R) {f : Field} {l : Leaf} {kind : FieldKind} {now : Instant}
    (hf : s.entity.field? name = some f)
    (hp : l.predicate? (.field (s.fieldPath name)) kind now = some p) : s.Respects c R p := by
  intro base hbase hjoined x y hxy b b'
  exact Leaf.holds_eq_of_value? hp (hR.value? hxy hjoined hf b b')

end Scope.Respects

/-- Being joined to a sound row, an entity is sound. -/
lemma Scope.respects_of_isSound {c : Catalog} {R : Entity → Document → Document → Prop} {s : Scope}
    {p : Predicate} (hc : c.IsSound) (h : s.entity.IsSound → s.Respects c R p) :
    s.Respects c R p := by
  intro base hbase hjoined
  exact h (hc.along? hbase hjoined) base hbase hjoined

lemma Compiler.carries_respects {c : Compiler} {R : Entity → Document → Document → Prop}
    (hR : c.catalog.Likeness R) (hc : c.catalog.IsSound) :
    c.Carries fun s p => s.Respects c.catalog R p where
  and? := Scope.Respects.and?
  or? := Scope.Respects.or?
  not := Scope.Respects.not
  included s values := by
    refine Scope.respects_of_isSound hc fun hs => ?_
    obtain ⟨f, hf⟩ := hs.primaryKey
    intro base _ hjoined x y hxy b b'
    simp only [Predicate.holds]
    rw [Scope.fieldPath, hR.value? hxy hjoined hf b b']
  join _ _ hr _ h := h.join hr
  someRow _ _ hr := Scope.Respects.existence hR hr (by simp)
  someRowWith {s name r target p} _ _ hr h := by
    refine Scope.Respects.existence hR hr ?_
    rintro q ⟨⟩ x y hxy
    exact h target (hc.resolve? hr) rfl x y hxy x y

lemma ProjectionSet.lookup?_empty (key : ProjectionKey) : empty.lookup? key = none := rfl

/-- Without projections, every part of a contribution reads fields. -/
lemma Visit.builds_respects {c : Compiler} {R : Entity → Document → Document → Prop}
    (hR : c.catalog.Likeness R) (hc : c.catalog.IsSound) (v : Visit)
    (hv : v.scope.entity.IsSound) :
    v.Builds c .empty fun p => v.scope.Respects c.catalog R p where
  and? := Scope.Respects.and?
  or? := Scope.Respects.or?
  leaf {l o kind p} _ ho hp := by
    cases ho with
    | field hf _ => exact Scope.Respects.leaf hR hf hp
    | key =>
      obtain ⟨f, hf⟩ := hv.primaryKey
      exact Scope.Respects.leaf hR hf hp
    | @keyOfRow name r target _ _ hr _ =>
      obtain ⟨f, hf⟩ := (hc.resolve? hr).primaryKey
      exact Scope.Respects.join hr (Scope.Respects.leaf hR hf hp)
    | projection _ hh => simp [ProjectionSet.lookup?_empty] at hh
  rows {l name r target p} _ _ _ hr hp := by
    refine Scope.Respects.existence hR hr ?_
    rintro q ⟨⟩ x y hxy
    obtain ⟨f, hf⟩ := (hc.resolve? hr).primaryKey
    have h := Scope.Respects.leaf (s := { entity := target }) hR hf hp
    exact h target (hc.resolve? hr) rfl x y hxy x y
  quick {f} text hf := by
    intro base _ hjoined x y hxy b b'
    simp only [Predicate.holds]
    rw [Scope.fieldPath, hR.value? hxy hjoined (hv.searchable hf) b b']
  comparison {left right f g} op hf hg := by
    intro base _ hjoined x y hxy b b'
    simp only [Predicate.holds]
    rw [Scope.fieldPath, Scope.fieldPath, hR.value? hxy hjoined hf b b',
      hR.value? hxy hjoined hg b b']
  search _ _ hh := by simp [ProjectionSet.lookup?_empty] at hh
  rank _ _ _ hh := by simp [ProjectionSet.lookup?_empty] at hh

/-- **A predicate without projections does not tell alike rows apart.** -/
theorem Filter.respects_of_predicate? {c : Compiler} {R : Entity → Document → Document → Prop}
    (hR : c.catalog.Likeness R) (hc : c.catalog.IsSound) {s : Scope} {f : Filter} {p : Predicate}
    (hp : f.predicate? c .empty s = some p) : s.Respects c.catalog R p := by
  refine f.predicate?_of_carries (Compiler.carries_respects hR hc)
    (fun v _ => ⟨fun _ _ => trivial, fun q hq => ?_⟩) p hp
  refine Scope.respects_of_isSound hc fun hv => ?_
  exact Visit.predicate?_of_builds (Visit.builds_respects hR hc v hv) hq

/-! ## Expressions -/

namespace OrderKey

variable {c : Catalog} {R : Entity → Document → Document → Prop} {e : Entity}
  {x x' y y' : Document}

lemma compareRowsBy_eq (hR : c.Likeness R) (hx : R e x x') (hy : R e y y') (ks : List OrderKey)
    (hks : ∀ k ∈ ks, e.hasField k.field) :
    compareRowsBy ks x y = compareRowsBy ks x' y' := by
  induction ks with
  | nil => rfl
  | cons k ks ih =>
    obtain ⟨f, hf⟩ := Option.isSome_iff_exists.mp (hks k List.mem_cons_self)
    have hrest := ih fun k' hk' => hks k' (List.mem_cons_of_mem _ hk')
    simp only [compareRowsBy, compareRows, hR.valueAt hx hf, hR.valueAt hy hf, hrest]

end OrderKey

namespace Document

variable {c : Catalog} {R : Entity → Document → Document → Prop} {e : Entity} {ks : List OrderKey}
  {xs ys : List Document}

lemma forall₂_insertRow (hR : c.Likeness R) (hks : ∀ k ∈ ks, e.hasField k.field)
    {x y : Document} (hxy : R e x y) (h : List.Forall₂ (R e) xs ys) :
    List.Forall₂ (R e) (insertRow ks x xs) (insertRow ks y ys) := by
  induction h with
  | nil => exact .cons hxy .nil
  | cons hlast hothers ih =>
    simp only [insertRow, OrderKey.compareRowsBy_eq hR hxy hlast ks hks]
    split
    · exact .cons hlast ih
    · exact .cons hxy (.cons hlast hothers)

/-- Alike rows are sorted alike. -/
lemma forall₂_sortRows (hR : c.Likeness R) (hks : ∀ k ∈ ks, e.hasField k.field)
    (h : List.Forall₂ (R e) xs ys) :
    List.Forall₂ (R e) (sortRows ks xs) (sortRows ks ys) := by
  unfold sortRows
  rw [List.forall₂_reverse_iff]
  exact List.rel_foldl (R := R e) (fun _ _ hs _ _ hr => forall₂_insertRow hR hks hr hs) .nil h

end Document

namespace ProjectionExpr

variable {c : Catalog} {R : Entity → Document → Document → Prop} {e target : Entity}
  {x y : Document} {xs ys : List Document} {path : RelationPath} {name : String} {f : Field}

lemma column_eq (hR : c.Likeness R) {field : Option String} {filter : Option Predicate}
    (hfield : ∀ name, field = some name → ∃ f, e.field? name = some f)
    (hfilter : ∀ p, filter = some p → ∀ x y, R e x y → p.holdsOf x = p.holdsOf y)
    (h : List.Forall₂ (R e) xs ys) : column field filter xs = column field filter ys := by
  have hpicked : ∀ x y, R e x y → filter.all (·.holdsOf x) = filter.all (·.holdsOf y) := by
    intro x y hxy
    cases filter with
    | none => rfl
    | some p => exact hfilter p rfl x y hxy
  have hrows := List.rel_filter (R := R e) (p := fun row => filter.all (·.holdsOf row))
    (q := fun row => filter.all (·.holdsOf row))
    (fun x y hxy => by simp only [hpicked x y hxy]) h
  refine map_eq_of_forall₂ hrows fun x y hxy => ?_
  cases field with
  | none => rfl
  | some name =>
    obtain ⟨f, hf⟩ := hfield name rfl
    exact hR.valueAt hxy hf

lemma onMoment?_eq (hR : c.Likeness R) (hxy : R e x y)
    (hpath : c.along? e path.segments = some target) (hf : target.field? name = some f)
    (g : Moment → Document) : onMoment? x (.under path name) g = onMoment? y (.under path name) g := by
  have hread : x.readField? (.under path name) = y.readField? (.under path name) :=
    hR.follow? hxy hpath hf
  rw [onMoment?, onMoment?, hread]

end ProjectionExpr

/-! ### What is planned is there -/

namespace Compiler

variable {c : Compiler} {s : Scope}

lemma relation?_of_toMany? {name : String} {target : Entity} (h : c.toMany? s name = some target) :
    ∃ r, c.catalog.resolve? s.entity name = some (r, target) := by
  obtain ⟨-, r, hr, -⟩ := toMany?_eq_some.mp h
  exact ⟨r, hr⟩

lemma field?_of_searchFields? (hs : s.entity.IsSound) {search : SearchFilter}
    {fields : List String} (h : searchFields? s search = some fields) :
    ∀ name ∈ fields, ∃ f, s.entity.field? name = some f := by
  intro name hname
  simp only [searchFields?] at h
  obtain ⟨hok, h⟩ := Option.ite_none_right_eq_some.mp h
  obtain rfl := Option.some.inj h
  by_cases hempty : search.fields.isEmpty
  · simp only [hempty, if_true] at hname
    obtain ⟨f, hf, rfl⟩ := List.mem_map.mp hname
    exact ⟨f, hs.searchable hf⟩
  · simp only [hempty] at hname
    have htext := List.all_eq_true.mp (Bool.and_eq_true_iff.mp hok).1 name hname
    obtain ⟨f, hf, -⟩ := (Option.any_eq_true _ _).mp htext
    exact ⟨f, hf⟩

end Compiler

/-! ### What is requested reads alike rows alike -/

namespace Visit

variable {c : Compiler} {set : ProjectionSet} {R : Entity → Document → Document → Prop}
  {v : Visit} {base : Entity} {x y : Document}

/-- **What is requested has the same value on alike rows**: the rows from which the scope joins its
entity. -/
theorem compute?_eq_of_mem_requests (hR : c.catalog.Likeness R) (hc : c.catalog.IsSound)
    (hbase : base.IsSound)
    (hjoined : c.catalog.along? base v.scope.joined.segments = some v.scope.entity)
    (hxy : R base x y) {p : Projection} (hp : p ∈ v.requests c set) :
    p.expr.compute? x = p.expr.compute? y := by
  have hplans := Visit.plans_of_mem_requests hp
  -- the rows behind a relation of the entity
  have hrows : ∀ {name target}, c.toMany? v.scope name = some target →
      List.Forall₂ (R target) (x.related (v.scope.relationPath name).segments)
        (y.related (v.scope.relationPath name).segments) := by
    intro name target htarget
    obtain ⟨r, hr⟩ := Compiler.relation?_of_toMany? htarget
    refine hR.related hxy ?_
    show c.catalog.along? base (v.scope.joined.segments ++ [name]) = some target
    rw [Catalog.along?_append, hjoined]
    exact Catalog.along?_single hr
  generalize p.key = key, p.expr = expr at hplans
  cases hplans with
  | aggregate _ htarget hfield =>
    simp only [ProjectionExpr.compute?]
    rw [ProjectionExpr.column_eq hR hfield (by simp) (hrows htarget)]
  | conditionalAggregate _ _ _ htarget hfield =>
    obtain ⟨r, hr⟩ := Compiler.relation?_of_toMany? htarget
    simp only [ProjectionExpr.compute?]
    rw [ProjectionExpr.column_eq hR hfield ?_ (hrows htarget)]
    intro p hp x y hxy
    obtain ⟨target', htarget', hp⟩ := Option.bind_eq_some_iff.mp hp
    obtain rfl := Option.some.inj (htarget.symm.trans htarget')
    exact Filter.respects_of_predicate? hR hc hp _ (hc.resolve? hr) rfl x y hxy x y
  | count _ _ htarget =>
    simp only [ProjectionExpr.compute?]
    rw [(hrows htarget).length_eq]
  | window => rfl
  | subquery _ _ _ htarget hfield hks =>
    obtain ⟨f, hf⟩ := hfield
    have hsorted := Document.forall₂_sortRows hR hks (hrows htarget)
    simp only [ProjectionExpr.compute?]
    rw [← List.head?_map, ← List.head?_map,
      map_eq_of_forall₂ hsorted fun _ _ hxy => hR.valueAt hxy hf]
  | dateTrunc _ _ hf _ => exact ProjectionExpr.onMoment?_eq hR hxy hjoined hf _
  | dateExtract _ _ hf _ => exact ProjectionExpr.onMoment?_eq hR hxy hjoined hf _
  | @searchVector search fields config _ _ hfields =>
    simp only [ProjectionExpr.compute?]
    have hread : ∀ path ∈ fields.map v.scope.fieldPath, x.readField? path = y.readField? path := by
      intro path hpath
      obtain ⟨name, hname, rfl⟩ := List.mem_map.mp hpath
      obtain ⟨f, hf⟩ :=
        Compiler.field?_of_searchFields? (hc.along? hbase hjoined) hfields name hname
      exact hR.follow? hxy hjoined hf
    rw [List.filterMap_congr fun path hpath => by rw [hread path hpath]]
  | searchRank => rfl

end Visit

end EntityFilter
