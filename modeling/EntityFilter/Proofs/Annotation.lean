import EntityFilter.Proofs.AlikeRows
import EntityFilter.Proofs.AnnotationOrder

/-!
# Annotation stores what is computed

The projections that a filter asks for are stored in rows one after the other, and each is computed
on rows that may hold others already, at several levels.  In a valid catalog this makes no
difference, as long as no projection has the name of a field or of a relation: a row with
projections and the row without them are alike (`Document.likeness_annotatesAt`), and what is
requested reads alike rows alike.  So the projections do not get in each other's way
(`Compiler.independent_projections`).

`Compiler.annotate_stores` says what comes of this.  The rows that the path of a projection leads to
hold it, with the value that it has for the row as it was, and no other rows do; nothing else in the
row changes; the order of the projections does not count; and what a row itself gains is what
`Document.project` lists.

Two conditions cannot be left out (`Compiler.annotate_stores_not_always`).  `Document.project` lists
values for anything, while only an object can hold them.  And validation compares the names that
fields and relations carry: where they are stored under other names, a field can be a relation as
well, and then a projection reads what another one has stored.
-/

namespace EntityFilter

/-! ## The set that is collected -/

lemma Compiler.map_name_projections (c : Compiler) (f : Filter) (e : Entity) :
    (c.projections f e).toList.map Projection.name = (c.projections f e).names := by
  rw [Compiler.projections_eq_requests]
  exact ProjectionSet.map_name_toList_ofRequests _

/-! ## Rows with projections are alike -/

/-- Names that no entity of a catalog has for a field or for a relation. -/
def Catalog.Unused (c : Catalog) (names : List String) : Prop :=
  ∀ name ∈ names, ∀ e ∈ c.entities.values, e.field? name = none ∧ e.relation? name = none

namespace Catalog

variable {c : Catalog} {e target : Entity} {path : List String} {n : String} {names : List String}

lemma entity?_of_along? (he : c.entity? n = some e) (h : c.along? e path = some target) :
    ∃ m, c.entity? m = some target := by
  induction path generalizing e n with
  | nil =>
    obtain rfl := Option.some.inj h
    exact ⟨n, he⟩
  | cons name path ih =>
    obtain ⟨r, next, hr, hpath⟩ := along?_cons_eq_some.mp h
    exact ih (resolve?_eq_some.mp hr).2 hpath

/-- A path of relations goes through no unused name. -/
lemma Unused.notMem_path (h : c.Unused names) (he : c.entity? n = some e)
    (hpath : c.along? e path = some target) : ∀ name ∈ path, name ∉ names := by
  induction path generalizing e n with
  | nil => simp
  | cons relation path ih =>
    obtain ⟨r, next, hr, hrest⟩ := along?_cons_eq_some.mp hpath
    obtain ⟨hrelation, hnext⟩ := resolve?_eq_some.mp hr
    rw [List.forall_mem_cons]
    refine ⟨fun hmem => ?_, ih hnext hrest⟩
    rw [(h relation hmem e (mem_values_of_entity? he)).2] at hrelation
    simp at hrelation

end Catalog

namespace Document

/-- A row of an entity with projections and the same row without them.  What is no row counts as
well, since nothing can be read from it. -/
def AnnotatesAt (c : Catalog) (e : Entity) (ps : List Projection) (target : Entity)
    (x y : Document) : Prop :=
  (¬x.isObject ∧ ¬y.isObject) ∨ ∃ path, c.along? e path = some target ∧ x = annotated ps path y

variable {c : Catalog} {e target : Entity} {ps : List Projection} {x y : Document} {n : String}
  {path : List String}

lemma get?_of_not_isObject (h : ¬x.isObject) (name : String) : x.get? name = none := by
  cases x with
  | object members => simp [isObject] at h
  | _ => rfl

/-- Nothing is stored behind a field. -/
lemma annotatedRows_of_field (hc : c.IsSound) (he : c.entity? n = some e)
    (hscope : ∀ p ∈ ps, ∃ base, c.along? e p.scope.segments = some base)
    (hpath : c.along? e path = some target) {name : String} {f : Field}
    (hf : target.field? name = some f) (d : Document) :
    annotatedRows ps (path ++ [name]) d = d := by
  have hnot : ∀ p ∈ ps, ¬path ++ [name] <+: p.scope.segments := by
    rintro p hp ⟨rest, hrest⟩
    obtain ⟨base, hbase⟩ := hscope p hp
    rw [← hrest, List.append_assoc, Catalog.along?_append, hpath] at hbase
    obtain ⟨r, next, hr, -⟩ := Catalog.along?_cons_eq_some.mp hbase
    have hsound := hc.along? (hc he) hpath
    rw [hsound.apart (Catalog.resolve?_eq_some.mp hr).1] at hf
    simp at hf
  have happend : annotatedRows ([] ++ ps) (path ++ [name]) d = annotatedRows [] (path ++ [name]) d :=
    annotatedRows_append_of_notPrefix d hnot
  rw [annotatedRows_nil] at happend
  exact happend

/-- **A row with projections and the row without them are alike.** -/
theorem likeness_annotatesAt (hc : c.IsSound) (he : c.entity? n = some e)
    (hscope : ∀ p ∈ ps, ∃ base, c.along? e p.scope.segments = some base)
    (hunused : c.Unused (ps.map Projection.name)) : c.Likeness (AnnotatesAt c e ps) where
  field {target x y name f} h hf := by
    rcases h with ⟨hx, hy⟩ | ⟨path, hpath, rfl⟩
    · rw [get?_of_not_isObject hx, get?_of_not_isObject hy]
    · obtain ⟨m, hm⟩ := Catalog.entity?_of_along? he hpath
      have hname : name ∉ ps.map Projection.name := by
        intro hmem
        rw [(hunused name hmem target (Catalog.mem_values_of_entity? hm)).1] at hf
        simp at hf
      rw [get?_annotated_of_notMem hname]
      cases y.get? name with
      | none => rfl
      | some d => rw [Option.map_some, annotatedRows_of_field hc he hscope hpath hf]
  value {target x y name r next} h hr := by
    rcases h with ⟨hx, hy⟩ | ⟨path, hpath, rfl⟩
    · left
      rw [valueAt, valueAt, get?_of_not_isObject hx, get?_of_not_isObject hy]
      exact ⟨Bool.false_ne_true, Bool.false_ne_true⟩
    · have hnext : c.along? e (path ++ [name]) = some next := by
        rw [Catalog.along?_append, hpath]
        exact Catalog.along?_single hr
      have hname := hunused.notMem_path he hnext name (by simp)
      rw [valueAt, valueAt, get?_annotated_of_notMem hname]
      cases y.get? name with
      | none => exact .inl ⟨Bool.false_ne_true, Bool.false_ne_true⟩
      | some d =>
        cases d with
        | object members => exact .inr ⟨path ++ [name], hnext, rfl⟩
        | _ => exact .inl ⟨Bool.false_ne_true, Bool.false_ne_true⟩
  rows {target x y name r next} h hr := by
    rcases h with ⟨hx, hy⟩ | ⟨path, hpath, rfl⟩
    · rw [rowsAt, rowsAt, get?_of_not_isObject hx, get?_of_not_isObject hy]
      exact .nil
    · have hnext : c.along? e (path ++ [name]) = some next := by
        rw [Catalog.along?_append, hpath]
        exact Catalog.along?_single hr
      have hname := hunused.notMem_path he hnext name (by simp)
      rw [rowsAt_annotated hname, List.forall₂_map_left_iff, List.forall₂_same]
      exact fun z _ => .inr ⟨path ++ [name], hnext, rfl⟩

end Document

/-! ## What is collected does not get in its own way -/

namespace Compiler

variable {c : Compiler} {f : Filter} {n : String} {e : Entity} {p : Projection}

/-- Every projection is requested by a visit, for the rows of its scope. -/
lemma requested_of_mem_projections (hp : p ∈ (c.projections f e).toList) :
    ∃ v base, p ∈ Visit.requests c (c.projections f e) v ∧
      c.catalog.along? e p.scope.segments = some base ∧
      c.catalog.along? base v.scope.joined.segments = some v.scope.entity := by
  have hreq : p ∈ c.requests f e := by
    rw [projections_eq_requests] at hp
    exact ProjectionSet.mem_of_mem_toList_ofRequests hp
  obtain ⟨v, hv, hpv⟩ := List.mem_flatMap.mp hreq
  obtain ⟨base, hbase, hjoined⟩ := Filter.located_of_mem_visits (Scope.located_refl c.catalog e) hv
  rw [← Visit.scope_of_mem_requests hpv] at hbase
  exact ⟨v, base, hpv, hbase, hjoined⟩

lemma nodup_names (c : Compiler) (f : Filter) (e : Entity) :
    ((c.projections f e).toList.map Projection.name).Nodup := by
  rw [map_name_projections]
  exact (c.projections f e).byName.nodup

lemma name_mem_names (hp : p ∈ (c.projections f e).toList) :
    p.name ∈ (c.projections f e).names := by
  rw [← map_name_projections]
  exact List.mem_map_of_mem hp

/-- **The projections of a filter do not get in each other's way.** -/
theorem independent_projections (hc : c.catalog.IsSound) (he : c.catalog.entity? n = some e)
    (hunused : c.catalog.Unused (c.projections f e).names) :
    Document.Independent (c.projections f e).toList where
  nodup := nodup_names c f e
  scope p hp := by
    rw [map_name_projections]
    obtain ⟨v, base, -, hbase, -⟩ := requested_of_mem_projections hp
    exact hunused.notMem_path he hbase
  value p hp qs hqs row := by
    obtain ⟨v, base, hpv, hbase, hjoined⟩ := requested_of_mem_projections hp
    have hscope : ∀ q ∈ qs, ∃ base, c.catalog.along? e q.scope.segments = some base := by
      intro q hq
      obtain ⟨-, base, -, hbase, -⟩ := requested_of_mem_projections (hqs hq)
      exact ⟨base, hbase⟩
    have hnames : c.catalog.Unused (qs.map Projection.name) := by
      intro name hname
      obtain ⟨q, hq, rfl⟩ := List.mem_map.mp hname
      exact hunused _ (name_mem_names (hqs hq))
    have hlike := Document.likeness_annotatesAt hc he hscope hnames
    exact Visit.compute?_eq_of_mem_requests hlike hc (hc.along? (hc he) hbase) hjoined
      (.inr ⟨_, hbase, rfl⟩) hpv

/-- What annotation of a row with the projections of a filter relies on. -/
structure Annotates (c : Compiler) (f : Filter) (e : Entity) (row : Document) : Prop where
  sound : c.catalog.IsSound
  known : ∃ n, c.catalog.entity? n = some e
  unused : c.catalog.Unused (c.projections f e).names
  wellFormed : row.WellFormed
  free : row.without (c.projections f e).names = row

namespace Annotates

variable {row x : Document} {path : List String} {ps : List Projection}

/-- Storing the projections one after the other gives a row with all of them. -/
lemma foldl_annotateWith (h : c.Annotates f e row) (hperm : ps.Perm (c.projections f e).toList) :
    ps.foldl Document.annotateWith row = Document.annotated ps [] row := by
  obtain ⟨n, he⟩ := h.known
  have hindependent := (independent_projections h.sound he h.unused).perm hperm
  have hmem : ∀ p ∈ ps, p.name ∈ (c.projections f e).names :=
    fun p hp => name_mem_names (hperm.subset hp)
  have hfold : ps.foldl Document.annotateWith (Document.annotated [] [] row) =
      Document.annotated ([] ++ ps) [] row :=
    Document.foldl_annotateWith hindependent h.wellFormed hmem h.free
  rwa [Document.annotated_nil] at hfold

lemma annotate_eq (h : c.Annotates f e row) :
    Document.annotate (c.projections f e) row =
      Document.annotated (c.projections f e).toList [] row :=
  h.foldl_annotateWith (.refl _)

/-- Rows are reached as before, along paths of other names. -/
lemma related_annotate (h : c.Annotates f e row)
    (hpath : ∀ name ∈ path, name ∉ (c.projections f e).names) :
    (Document.annotate (c.projections f e) row).related path =
      (row.related path).map (Document.annotated (c.projections f e).toList path) := by
  rw [h.annotate_eq, Document.related_annotated, List.nil_append]
  rwa [map_name_projections]

/-- A row at a path holds the projections for this path and no others. -/
lemma get?_annotated (h : c.Annotates f e row) (hp : p ∈ (c.projections f e).toList)
    (hx : x ∈ row.related path) (hobject : x.isObject) :
    (Document.annotated (c.projections f e).toList path x).get? p.name =
      if p.scope.segments = path then p.expr.compute? x else none :=
  Document.get?_annotated (nodup_names c f e) hp (name_mem_names hp)
    (Document.without_of_mem_related h.free x hx) hobject

/-- The rows that the path of a projection leads to hold its value. -/
lemma get?_of_scope (h : c.Annotates f e row) (hp : p ∈ (c.projections f e).toList) :
    List.Forall₂ (fun x' x => x.isObject → x'.get? p.name = p.expr.compute? x)
      ((Document.annotate (c.projections f e) row).related p.scope.segments)
      (row.related p.scope.segments) := by
  obtain ⟨n, he⟩ := h.known
  obtain ⟨-, base, -, hbase, -⟩ := requested_of_mem_projections hp
  rw [h.related_annotate (h.unused.notMem_path he hbase), List.forall₂_map_left_iff,
    List.forall₂_same]
  intro x hx hobject
  rw [h.get?_annotated hp hx hobject, if_pos rfl]

/-- Rows at the end of another path do not hold the projection. -/
lemma get?_of_ne_scope (h : c.Annotates f e row) (hp : p ∈ (c.projections f e).toList)
    (hne : path ≠ p.scope.segments) (hpath : ∀ name ∈ path, name ∉ (c.projections f e).names) :
    ∀ x' ∈ (Document.annotate (c.projections f e) row).related path, x'.get? p.name = none := by
  intro x' hx'
  rw [h.related_annotate hpath] at hx'
  obtain ⟨x, hx, rfl⟩ := List.mem_map.mp hx'
  by_cases hobject : x.isObject
  · rw [h.get?_annotated hp hx hobject, if_neg (Ne.symm hne)]
  · cases x with
    | object members => simp [Document.isObject] at hobject
    | _ => rfl

/-- Without the projections, the row is as it was. -/
lemma without_annotate (h : c.Annotates f e row) :
    (Document.annotate (c.projections f e) row).without (c.projections f e).names = row := by
  rw [h.annotate_eq, Document.without_annotated (fun p hp => name_mem_names hp), h.free]

/-- The order of the projections does not count. -/
lemma same_annotate (h : c.Annotates f e row) (hperm : ps.Perm (c.projections f e).toList) :
    (ps.foldl Document.annotateWith row).same (Document.annotate (c.projections f e) row) := by
  have hnodup : (ps.map Projection.name).Nodup :=
    (hperm.map Projection.name).nodup_iff.mpr (nodup_names c f e)
  rw [h.foldl_annotateWith hperm, h.annotate_eq]
  exact Document.same_annotated hperm hnodup (fun p hp => name_mem_names (hperm.subset hp)) [] row
    h.wellFormed h.free

end Annotates

/-- The projections of a row itself are those that it gains. -/
lemma project_projections (row : Document) :
    Document.project (c.projections f e) row =
      Document.ownProjections (c.projections f e).toList [] row := by
  have hroot : ∀ p : Projection, p.scope.isEmpty = decide (p.scope.segments = []) := by
    intro p
    rw [RelationPath.isEmpty]
    cases p.scope.segments <;> rfl
  have hnodup : (Entries.keys (Document.ownProjections (c.projections f e).toList [] row)).Nodup :=
    (nodup_names c f e).sublist (Document.keys_ownProjections_sublist _ [] row)
  rw [← Entries.ofPairs_of_nodup hnodup, Document.project, Document.ownProjections]
  simp only [hroot, decide_eq_true_eq]

/-- **Annotation stores what is computed.**  In a valid catalog that stores its parts under their own
names, and for projections whose names occur neither in the catalog nor in the row: the rows that
the path of a projection leads to hold its value, and no other rows do; without the projections the
row is as it was; the order of the projections does not count; and a row itself gains what
`Document.project` lists. -/
theorem annotate_stores (c : Compiler) (f : Filter) {n : String} {e : Entity} {row : Document}
    (he : c.catalog.entity? n = some e) (hvalid : c.catalog.IsValid) (hkeyed : c.catalog.IsKeyed)
    (hunused : c.catalog.Unused (c.projections f e).names) (hwell : row.WellFormed)
    (hfree : row.without (c.projections f e).names = row) :
    (∀ p ∈ (c.projections f e).toList,
      List.Forall₂ (fun x' x => x.isObject → x'.get? p.name = p.expr.compute? x)
        ((Document.annotate (c.projections f e) row).related p.scope.segments)
        (row.related p.scope.segments)) ∧
    (∀ p ∈ (c.projections f e).toList, ∀ path, path ≠ p.scope.segments →
      (∀ name ∈ path, name ∉ (c.projections f e).names) →
      ∀ x' ∈ (Document.annotate (c.projections f e) row).related path, x'.get? p.name = none) ∧
    (Document.annotate (c.projections f e) row).without (c.projections f e).names = row ∧
    (∀ ps : List Projection, ps.Perm (c.projections f e).toList →
      (ps.foldl Document.annotateWith row).same (Document.annotate (c.projections f e) row)) ∧
    (∀ members, row = .object members → ∃ members', Entries.keys members' = Entries.keys members ∧
      Document.annotate (c.projections f e) row =
        .object (members' ++ Document.project (c.projections f e) row)) := by
  have hsound : c.catalog.IsSound := Catalog.isSound_of_isValid hvalid hkeyed
  have h : c.Annotates f e row := ⟨hsound, ⟨n, he⟩, hunused, hwell, hfree⟩
  refine ⟨fun p hp => h.get?_of_scope hp, fun p hp path => h.get?_of_ne_scope hp,
    h.without_annotate, fun ps => h.same_annotate, ?_⟩
  rintro members rfl
  refine ⟨Document.annotatedMembers (c.projections f e).toList [] members,
    Document.keys_annotatedMembers, ?_⟩
  rw [h.annotate_eq, Document.annotated, project_projections]

end Compiler

namespace Shop

/-- A product that is reviewed, of a brand that is reviewed. -/
def reviewedTwice : Filter :=
  .node [("reviews_count", .count "reviews" (leaf "gte" (.int 1))),
    ("_exists", .existence [(⟨"brand", true⟩,
      some (.node [("reviews_count", .count "reviews" (leaf "gte" (.int 1)))]))])]

/-- A product without reviews, of a brand with one. -/
def brandedRow : Document :=
  .object [("id", .int 1),
    ("brand", .object [("id", .int 7), ("reviews", .array [.object [("id", .int 3)]])])]

end Shop

theorem Compiler.annotate_stores_shop :
    (Shop.compiler.catalog.IsValid ∧ Shop.compiler.catalog.IsKeyed ∧ Shop.brandedRow.WellFormed) ∧
      (Document.annotate (Shop.compiler.projections Shop.reviewedTwice Shop.product)
        Shop.brandedRow).without ["reviews_count", "brand__reviews_count"] = Shop.brandedRow := by
  have hvalid : Shop.compiler.catalog.IsValid := rfl
  have hunused : Shop.compiler.catalog.Unused
      (Shop.compiler.projections Shop.reviewedTwice Shop.product).names := by
    unfold Catalog.Unused
    decide +kernel
  have hwell : Shop.brandedRow.WellFormed := by
    simp [Shop.brandedRow, Document.WellFormed, Document.MembersWellFormed,
      Document.ItemsWellFormed]
  have h := Shop.compiler.annotate_stores Shop.reviewedTwice (n := "Product") rfl hvalid
    Shop.isKeyed hunused hwell rfl
  exact ⟨⟨hvalid, Shop.isKeyed, hwell⟩, h.2.2.1⟩

/-! ### Where annotation and projections part -/

namespace Shop

/-- A product without reviews. -/
def unreviewed : Filter := .node [("reviews_count", .count "reviews" (leaf "eq" (.int 0)))]

/-- An entity that stores a field and a relation under one name, which neither of them carries. -/
def box : Entity where
  name := "Box"
  fields := .ofList [("id", { name := "id", kind := .id }),
    ("contents", { name := "label", kind := .text })]
  relations := .ofList [("contents", { name := "parts", cardinality := .many, target := "Box" })]

/-- Compilation against a catalog of boxes. -/
def boxes : Compiler := { compiler with catalog := Catalog.withEntity {} box }

/-- What the boxes in the boxes of a box hold is counted, and the greatest contents are sought. -/
def fullestBox : Filter :=
  .node [("contents_some", .quantified "contents" .some (.node [
      ("contents_some", .quantified "contents" .some (.node [
        ("contents_count", .count "contents" (leaf "gte" (.int 0)))]))])),
    ("contents_aggregate", .aggregate
      ⟨"contents", some "contents", [(.max, leaf "isnull" (.bool false))]⟩ none)]

/-- A box in a box in a box. -/
def nestedBoxes : Document :=
  .object [("id", .int 1), ("contents", .array [.object [("id", .int 2),
    ("contents", .array [.object [("id", .int 3)]])]])]

end Shop

/-- A row that is no object cannot hold what `Document.project` lists for it, and in a valid catalog
whose fields and relations are not stored under their own names, a value that is stored need not be
the one that is computed for the row. -/
theorem Compiler.annotate_stores_not_always :
    (Shop.compiler.catalog.IsValid ∧
      Document.annotate (Shop.compiler.projections Shop.unreviewed Shop.product) (.int 5) = .int 5 ∧
      Document.project (Shop.compiler.projections Shop.unreviewed Shop.product) (.int 5) =
        [("reviews_count", .int 0)]) ∧
    (Shop.boxes.catalog.IsValid ∧
      Shop.boxes.catalog.Unused (Shop.boxes.projections Shop.fullestBox Shop.box).names ∧
      Shop.nestedBoxes.WellFormed ∧
      Shop.nestedBoxes.without (Shop.boxes.projections Shop.fullestBox Shop.box).names =
        Shop.nestedBoxes ∧
      ∃ p ∈ (Shop.boxes.projections Shop.fullestBox Shop.box).toList, ∃ stored value,
        p.scope = .root ∧
        (Document.annotate (Shop.boxes.projections Shop.fullestBox Shop.box)
          Shop.nestedBoxes).get? p.name = some stored ∧
        p.expr.compute? Shop.nestedBoxes = some value ∧ ¬stored.same value) := by
  have hunused : Shop.boxes.catalog.Unused
      (Shop.boxes.projections Shop.fullestBox Shop.box).names := by
    unfold Catalog.Unused
    decide +kernel
  have hwell : Shop.nestedBoxes.WellFormed := by
    simp [Shop.nestedBoxes, Document.WellFormed, Document.MembersWellFormed,
      Document.ItemsWellFormed]
  refine ⟨⟨rfl, rfl, rfl⟩, rfl, hunused, hwell, rfl, ?_⟩
  refine ⟨_, List.mem_of_getElem? (i := 1) rfl,
    .array [.object [("id", .int 3), ("contents__contents__contents_count", .int 0)]],
    .array [.object [("id", .int 3)]], rfl, rfl, rfl, ?_⟩
  decide +kernel

end EntityFilter
