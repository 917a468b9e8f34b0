import EntityFilter.Proofs.Annotation

/-!
# What annotation leaves in place

A projection is stored in the rows at the end of its path, under its name, whatever the row holds
there already.  `Document.bare` takes out of a row, and out of the rows in it, exactly the members
that projections are stored under, each in the rows that get it.  What is left is the same before
and after annotation, for any row and any projections (`Document.bare_annotate`).

So a field or a relation of an entity has the value that it had, as long as no projection is stored
under its name in the rows of this entity: `Compiler.annotate_keeps` says so for the rows at every
path that projections can be stored along, and for what is read through the relations joined to
them.  The condition is needed.  A search stores its document as `search_vector`, and validation
admits a field of this name (`Compiler.annotate_overwrites_field`).  All names of projections have
an underscore, so names without one are safe.
-/

namespace EntityFilter

/-! ## Where projections are stored -/

/-- Whether an expression is computed; ranks are not. -/
def ProjectionExpr.isComputed : ProjectionExpr → Bool
  | window _ _ | searchRank _ _ _ _ => false
  | _ => true

/-- Whether a projection is stored under a name in the rows at a path. -/
def Projection.isStored (ps : List Projection) (path : List String) (name : String) : Bool :=
  ps.any fun p => p.scope.segments = path && p.name = name && p.expr.isComputed

/-- No projection is stored under the name of a step, in the rows that the step is made from. -/
def Projection.Spare (ps : List Projection) (path rest : List String) : Prop :=
  ∀ before name after, rest = before ++ name :: after →
    isStored ps (path ++ before) name = false

namespace Projection

variable {ps : List Projection} {path rest : List String} {name : String} {p : Projection}

lemma isStored_of_mem (hp : p ∈ ps) (hscope : p.scope.segments = path)
    (hcomputed : p.expr.isComputed) : isStored ps path p.name :=
  List.any_eq_true.mpr ⟨p, hp, by simp [hscope, hcomputed]⟩

lemma Spare.head (h : Spare ps path (name :: rest)) : isStored ps path name = false := by
  simpa using h [] name rest rfl

lemma Spare.tail (h : Spare ps path (name :: rest)) : Spare ps (path ++ [name]) rest := by
  intro before next after hrest
  rw [List.append_assoc, List.singleton_append]
  exact h (name :: before) next after (by rw [hrest]; rfl)

end Projection

namespace Document

open Projection

/-! ## Rows without what is stored in them -/

mutual

/-- A row at a path, without what projections are stored under in all rows in it. -/
def bare (ps : List Projection) (path : List String) : Document → Document
  | object members => object (bareMembers ps path members)
  | d => d

/-- The members of a row at a path that no projection is stored under. -/
def bareMembers (ps : List Projection) (path : List String) :
    List (String × Document) → List (String × Document)
  | [] => []
  | (name, d) :: ms =>
    if isStored ps path name then bareMembers ps path ms
    else (name, bareRows ps (path ++ [name]) d) :: bareMembers ps path ms

/-- What a member holds; its rows are at the path. -/
def bareRows (ps : List Projection) (path : List String) : Document → Document
  | object members => object (bareMembers ps path members)
  | array items => array (bareItems ps path items)
  | d => d

/-- Rows at a path. -/
def bareItems (ps : List Projection) (path : List String) : List Document → List Document
  | [] => []
  | d :: ds => bare ps path d :: bareItems ps path ds

end

section

variable {ps qs : List Projection} {p : Projection} {path rest : List String} {name : String}
  {ms : List (String × Document)} {items : List Document} {row x x' d : Document}

lemma bareItems_eq_map : bareItems ps path items = items.map (bare ps path) := by
  induction items with
  | nil => rfl
  | cons d ds ih => rw [bareItems, ih, List.map_cons]

lemma rows_bareRows (ps : List Projection) (path : List String) (d : Document) :
    (bareRows ps path d).rows = d.rows.map (bare ps path) := by
  cases d with
  | array items => rw [bareRows, rows, rows, bareItems_eq_map]
  | _ => rfl

lemma get?_bareMembers (h : isStored ps path name = false) :
    Entries.get? name (bareMembers ps path ms) =
      (Entries.get? name ms).map (bareRows ps (path ++ [name])) := by
  induction ms with
  | nil => rfl
  | cons m ms ih =>
    obtain ⟨key, d⟩ := m
    rw [bareMembers]
    by_cases hk : key = name
    · subst hk
      simp [h, Entries.get?]
    · by_cases hs : isStored ps path key
      · simp [hs, Entries.get?, hk, ih]
      · simp [hs, Entries.get?, hk, ih]

/-- A member that no projection is stored under. -/
lemma get?_bare (h : isStored ps path name = false) (row : Document) :
    (bare ps path row).get? name = (row.get? name).map (bareRows ps (path ++ [name])) := by
  cases row with
  | object members => exact get?_bareMembers h
  | _ => rfl

lemma get?_bareRows (h : isStored ps path name = false) (row : Document) :
    (bareRows ps path row).get? name = (row.get? name).map (bareRows ps (path ++ [name])) := by
  cases row with
  | object members => exact get?_bareMembers h
  | _ => rfl

/-- What is read along names that no projection is stored under. -/
lemma follow?_bareRows (h : Spare ps path rest) (row : Document) :
    (bareRows ps path row).follow? rest = (row.follow? rest).map (bareRows ps (path ++ rest)) := by
  induction rest generalizing path row with
  | nil => simp [follow?]
  | cons name rest ih =>
    rw [follow?, follow?, get?_bareRows h.head]
    cases row.get? name with
    | none => rfl
    | some d =>
      have hrest := ih h.tail d
      rwa [List.append_assoc, List.singleton_append] at hrest

lemma rowsAt_bare (h : isStored ps path name = false) (row : Document) :
    (bare ps path row).rowsAt name = (row.rowsAt name).map (bare ps (path ++ [name])) := by
  rw [rowsAt, rowsAt, get?_bare h]
  cases row.get? name with
  | none => rfl
  | some d => exact rows_bareRows ps (path ++ [name]) d

/-- **Rows are reached as before**, along names that no projection is stored under. -/
theorem related_bare (h : Spare ps path rest) (row : Document) :
    (bare ps path row).related rest = (row.related rest).map (bare ps (path ++ rest)) := by
  induction rest generalizing path row with
  | nil => simp [related]
  | cons name rest ih =>
    have hrest : ∀ x, (bare ps (path ++ [name]) x).related rest =
        (x.related rest).map (bare ps (path ++ [name] ++ rest)) := ih h.tail
    rw [related_cons, related_cons, rowsAt_bare h.head, List.flatMap_map, List.map_flatMap]
    refine congrArg (List.flatMap · _) (funext fun x => ?_)
    rw [hrest x, List.append_assoc, List.singleton_append]

mutual

/-- Nothing is taken out of what no projection is stored in. -/
theorem bareRows_eq_self {ps : List Projection} :
    ∀ {path : List String} (d : Document), (∀ p ∈ ps, ¬path <+: p.scope.segments) →
      bareRows ps path d = d
  | path, object members, h => by rw [bareRows, bareMembers_eq_self members h]
  | path, array items, h => by rw [bareRows, bareItems_eq_self items h]
  | _, null, _ | _, bool _, _ | _, int _, _ | _, float _, _ | _, text _, _ => rfl

theorem bare_eq_self {ps : List Projection} :
    ∀ {path : List String} (d : Document), (∀ p ∈ ps, ¬path <+: p.scope.segments) →
      bare ps path d = d
  | path, object members, h => by rw [bare, bareMembers_eq_self members h]
  | _, array _, _ | _, null, _ | _, bool _, _ | _, int _, _ | _, float _, _ | _, text _, _ => rfl

theorem bareMembers_eq_self {ps : List Projection} :
    ∀ {path : List String} (ms : List (String × Document)),
      (∀ p ∈ ps, ¬path <+: p.scope.segments) → bareMembers ps path ms = ms
  | _, [], _ => rfl
  | path, (name, d) :: ms, h => by
    have hnone : isStored ps path name = false := by
      rw [isStored, List.any_eq_false]
      intro p hp hstored
      simp only [Bool.and_eq_true, decide_eq_true_eq] at hstored
      exact h p hp (hstored.1.1 ▸ List.prefix_refl _)
    have hbelow : ∀ p ∈ ps, ¬path ++ [name] <+: p.scope.segments :=
      fun p hp hprefix => h p hp ((List.prefix_append _ _).trans hprefix)
    rw [bareMembers, hnone, bareRows_eq_self d hbelow, bareMembers_eq_self ms h]
    rfl

theorem bareItems_eq_self {ps : List Projection} :
    ∀ {path : List String} (items : List Document),
      (∀ p ∈ ps, ¬path <+: p.scope.segments) → bareItems ps path items = items
  | _, [], _ => rfl
  | path, d :: ds, h => by rw [bareItems, bare_eq_self d h, bareItems_eq_self ds h]

end

/-! ## Annotation -/

/-- To store under a name that is taken out changes nothing that is left. -/
lemma bareMembers_insert (h : isStored ps path name) (value : Document) :
    bareMembers ps path (Entries.insert name value ms) = bareMembers ps path ms := by
  induction ms with
  | nil => simp [Entries.insert, bareMembers, h]
  | cons m ms ih =>
    obtain ⟨key, d⟩ := m
    rw [Entries.insert]
    split
    · next hk =>
      subst hk
      simp [bareMembers, h]
    · simp only [bareMembers, ih]

/-- To change a member changes nothing else that is left, and nothing at all if what is left of the
member stays the same. -/
lemma bareMembers_modify {g : Document → Document}
    (h : ∀ d, bareRows ps (path ++ [name]) (g d) = bareRows ps (path ++ [name]) d) :
    bareMembers ps path (Entries.modify name g ms) = bareMembers ps path ms := by
  induction ms with
  | nil => rfl
  | cons m ms ih =>
    obtain ⟨key, d⟩ := m
    rw [Entries.modify]
    split
    · next hk =>
      subst hk
      simp only [bareMembers, h]
    · simp only [bareMembers, ih]

lemma compute?_of_not_isComputed {expr : ProjectionExpr} (h : expr.isComputed = false)
    (row : Document) : expr.compute? row = none := by
  cases expr <;> first | rfl | simp [ProjectionExpr.isComputed] at h

/-- A projection is stored under what is taken out of the row. -/
lemma bare_annotateRow (hp : p ∈ ps) (row : Document) :
    bare ps p.scope.segments (annotateRow p row) = bare ps p.scope.segments row := by
  unfold annotateRow
  split
  · next value hvalue =>
    have hcomputed : p.expr.isComputed := by
      by_contra hnot
      rw [compute?_of_not_isComputed (by simpa using hnot)] at hvalue
      simp at hvalue
    cases row with
    | object members =>
      rw [insert, bare, bare, bareMembers_insert (isStored_of_mem hp rfl hcomputed)]
    | _ => rfl
  · rfl

/-- An object stays an object. -/
lemma exists_mapAlong_object (p : Projection) (rest : List String)
    (ms : List (String × Document)) :
    ∃ ms', mapAlong (annotateRow p) rest (object ms) = object ms' := by
  cases rest with
  | nil =>
    rw [mapAlong, annotateRow]
    split
    · exact ⟨_, rfl⟩
    · exact ⟨_, rfl⟩
  | cons name rest => exact ⟨_, rfl⟩

/-- The step for one projection, by induction on what is left of its path. -/
lemma bare_mapAlong (hp : p ∈ ps) :
    ∀ (rest path : List String) (row : Document), p.scope.segments = path ++ rest →
      bare ps path (mapAlong (annotateRow p) rest row) = bare ps path row := by
  intro rest
  induction rest with
  | nil =>
    intro path row hscope
    rw [List.append_nil] at hscope
    rw [mapAlong, ← hscope]
    exact bare_annotateRow hp row
  | cons name rest ih =>
    intro path row hscope
    have hinner : ∀ x, bare ps (path ++ [name]) (mapAlong (annotateRow p) rest x) =
        bare ps (path ++ [name]) x := by
      intro x
      refine ih (path ++ [name]) x ?_
      rw [hscope, List.append_assoc, List.singleton_append]
    cases row with
    | object members =>
      rw [mapAlong, bare, bare, bareMembers_modify]
      intro d
      cases d with
      | object inner =>
        obtain ⟨inner', hobject⟩ := exists_mapAlong_object p rest inner
        have hsame := hinner (object inner)
        rw [hobject] at hsame
        simp only [hobject]
        exact hsame
      | array items =>
        simp only [bareRows, bareItems_eq_map, List.map_map, array.injEq]
        exact List.map_congr_left fun x _ => hinner x
      | _ => rfl
    | _ => rfl

/-- **Annotation changes nothing but what projections are stored under**, in any row, with any
projections. -/
theorem bare_foldl_annotateWith (hqs : qs ⊆ ps) (row : Document) :
    bare ps [] (qs.foldl annotateWith row) = bare ps [] row := by
  induction qs generalizing row with
  | nil => rfl
  | cons q qs ih =>
    obtain ⟨hq, hqs⟩ := List.cons_subset.mp hqs
    rw [List.foldl_cons, ih hqs]
    exact bare_mapAlong hq q.scope.segments [] row rfl

theorem bare_annotate (set : ProjectionSet) (row : Document) :
    bare set.toList [] (annotate set row) = bare set.toList [] row :=
  bare_foldl_annotateWith (List.Subset.refl _) row

/-! ## Rows before and after -/

/-- What members hold is compared as well when rows are. -/
lemma bareRows_eq_of_bare_eq (h : bare ps path x' = bare ps path x) :
    bareRows ps path x' = bareRows ps path x := by
  cases x <;> cases x' <;> simp_all [bare, bareRows]

/-- What is read along names that no projection is stored under, if none is stored in it. -/
lemma follow?_eq (h : bare ps path x' = bare ps path x) (hspare : Spare ps path rest)
    (hnone : ∀ p ∈ ps, ¬path ++ rest <+: p.scope.segments) : x'.follow? rest = x.follow? rest := by
  have hself : bareRows ps (path ++ rest) = id := funext fun d => bareRows_eq_self d hnone
  have hread := follow?_bareRows hspare x
  have hread' := follow?_bareRows hspare x'
  rw [hself, Option.map_id_apply] at hread hread'
  rw [← hread, ← hread', bareRows_eq_of_bare_eq h]

end

/-- What a row of an entity keeps: what it holds under any name that no projection is stored under,
up to what is stored in the rows of it, and every field that is read through such names. -/
structure Keeps (c : Catalog) (ps : List Projection) (path : List String) (base : Entity)
    (x x' : Document) : Prop where
  member : ∀ name, isStored ps path name = false →
    (x'.get? name).map (bareRows ps (path ++ [name])) =
      (x.get? name).map (bareRows ps (path ++ [name]))
  field : ∀ name, (base.field? name).isSome → isStored ps path name = false →
    x'.get? name = x.get? name
  operand : ∀ joined entity name, c.along? base joined = some entity →
    (entity.field? name).isSome → Spare ps path (joined ++ [name]) →
    x'.readField? (.under ⟨joined⟩ name) = x.readField? (.under ⟨joined⟩ name)

end Document

namespace Compiler

open Document Projection

variable {c : Compiler} {f : Filter} {n name : String} {e base entity : Entity}
  {path joined : List String}

/-- No projection is stored in a field: paths lead along relations. -/
lemma notPrefix_of_field? (hc : c.catalog.IsSound) (he : c.catalog.entity? n = some e)
    (hbase : c.catalog.along? e path = some base)
    (hjoined : c.catalog.along? base joined = some entity)
    (hfield : (entity.field? name).isSome) :
    ∀ p ∈ (c.projections f e).toList, ¬path ++ (joined ++ [name]) <+: p.scope.segments := by
  rintro p hp ⟨rest, hrest⟩
  obtain ⟨-, target, -, hscope, -⟩ := requested_of_mem_projections hp
  have hentity : entity.IsSound := hc.along? (hc.along? (hc he) hbase) hjoined
  rw [← hrest, Catalog.along?_append, Catalog.along?_append, hbase, Option.bind_some,
    Catalog.along?_append, hjoined, Option.bind_some] at hscope
  obtain ⟨inner, hinner, -⟩ := Option.bind_eq_some_iff.mp hscope
  obtain ⟨r, next, hr, -⟩ := Catalog.along?_cons_eq_some.mp hinner
  have hnone := hentity.apart (Catalog.resolve?_eq_some.mp hr).1
  rw [hnone] at hfield
  simp at hfield

/-- Corresponding rows of an entity, before annotation and after it. -/
lemma keeps_of_bare_eq (hc : c.catalog.IsSound) (he : c.catalog.entity? n = some e)
    (hbase : c.catalog.along? e path = some base) {x x' : Document}
    (h : bare (c.projections f e).toList path x = bare (c.projections f e).toList path x') :
    Keeps c.catalog (c.projections f e).toList path base x x' where
  member name hname := by
    rw [← get?_bare hname, ← get?_bare hname, h]
  field name hfield hname := by
    have hspare : Spare (c.projections f e).toList path [name] := by
      intro before next after hrest
      obtain ⟨rfl, rfl, rfl⟩ : before = [] ∧ next = name ∧ after = [] := by
        cases before <;> simp_all
      simpa using hname
    have hroot : c.catalog.along? base [] = some base := rfl
    have hnone : ∀ p ∈ (c.projections f e).toList, ¬path ++ [name] <+: p.scope.segments :=
      notPrefix_of_field? hc he hbase hroot hfield
    rw [← follow?_single, ← follow?_single]
    exact follow?_eq h.symm hspare hnone
  operand joined entity name hjoined hfield hspare :=
    follow?_eq h.symm hspare (notPrefix_of_field? hc he hbase hjoined hfield)

end Compiler

/-- The name of a projection has an underscore. -/
lemma ProjectionKey.underscore_mem_name (key : ProjectionKey) : '_' ∈ key.name.toList := by
  have hunder : ∀ (path : RelationPath) {name : String}, '_' ∈ name.toList →
      '_' ∈ (under path name).toList := by
    intro path name hname
    unfold under
    split
    · exact hname
    · rw [String.toList_append]
      exact List.mem_append_right _ hname
  cases key with
  | aggregate | conditionalAggregate | count | subquery =>
    simp [name, String.toList_append]
  | window | dateTrunc | dateExtract | searchVector | searchRank =>
    refine hunder _ ?_
    simp [String.toList_append]

/-- **Annotation keeps what no projection is stored under.**  In a valid catalog that stores its
parts under their own names, for every filter that compiles and every row: at every path along which
no projection is stored under the name of a relation, the rows are reached as before, and each of
them keeps every member, and every field that it or a row joined to it has, unless a projection is
stored under this name in these rows.  Projections are stored at paths of the catalog, under names
with an underscore. -/
theorem Compiler.annotate_keeps {c : Compiler} {f : Filter} {n : String}
    {compiled : CompiledFilter} (hvalid : c.catalog.IsValid) (hkeyed : c.catalog.IsKeyed)
    (h : c.compile f n = .ok compiled) (row : Document) :
    ∃ e, c.catalog.entity? n = some e ∧
      (∀ path base, c.catalog.along? e path = some base →
        Projection.Spare compiled.projections.toList [] path →
        List.Forall₂ (Document.Keeps c.catalog compiled.projections.toList path base)
          (row.related path) ((Document.annotate compiled.projections row).related path)) ∧
      ∀ p ∈ compiled.projections.toList, '_' ∈ p.name.toList ∧
        ∃ base, c.catalog.along? e p.scope.segments = some base := by
  obtain ⟨e, he, -, rfl⟩ := compile_eq_ok_iff.mp h
  have hsound : c.catalog.IsSound := Catalog.isSound_of_isValid hvalid hkeyed
  refine ⟨e, he, fun path base hbase hspare => ?_, fun p hp => ?_⟩
  · have hrows := Document.related_bare hspare row
    have hrows' := Document.related_bare hspare (Document.annotate (c.projections f e) row)
    rw [Document.bare_annotate, hrows] at hrows'
    have hpairs : List.Forall₂ (fun x x' =>
        Document.bare (c.projections f e).toList path x =
          Document.bare (c.projections f e).toList path x')
        (row.related path) ((Document.annotate (c.projections f e) row).related path) := by
      have heq : List.Forall₂ Eq
          ((row.related path).map (Document.bare (c.projections f e).toList path))
          (((Document.annotate (c.projections f e) row).related path).map
            (Document.bare (c.projections f e).toList path)) := by
        rw [List.forall₂_eq_eq_eq]
        exact hrows'
      rwa [List.forall₂_map_left_iff, List.forall₂_map_right_iff] at heq
    exact hpairs.imp fun _ _ hbare => keeps_of_bare_eq hsound he hbase hbare
  · obtain ⟨-, base, -, hbase, -⟩ := requested_of_mem_projections hp
    exact ⟨p.key.underscore_mem_name, base, hbase⟩

namespace Shop

/-- Products with a field for the document of a search, which validation admits. -/
def indexed : Entity :=
  ((Entity.withField { name := "Product" } { name := "id", kind := .id }).withField
    { name := "name", kind := .text }).withField { name := "search_vector", kind := .text }

/-- Compilation of filters on such products, every feature switched on. -/
def indexedCompiler : Compiler := { compiler with catalog := Catalog.withEntity {} indexed }

/-- Products in which a word is found, and whose field has a value. -/
def searchedStored : Filter :=
  .node [("search", .search { query := "lamp" }),
    ("search_vector", .field "search_vector" (leaf "eq" (.text "stored")))]

/-- A product with a value in the field. -/
def storedRow : Document :=
  .object [("id", .int 1), ("name", .text "lamp"), ("search_vector", .text "stored")]

lemma indexed_isKeyed : indexedCompiler.catalog.IsKeyed :=
  Catalog.isKeyed_empty.withEntity
    ((((Entity.isKeyed_of_eq_nil rfl rfl).withField _).withField _).withField _)

lemma compile_searchedStored :
    indexedCompiler.compile searchedStored "Product" =
      .ok ⟨indexedCompiler.projections searchedStored indexed,
        indexedCompiler.predicate? searchedStored indexed
          (indexedCompiler.projections searchedStored indexed)⟩ := by
  have hlimits : indexedCompiler.settings.limits.error? searchedStored = none := by decide +kernel
  exact Compiler.compile_eq_ok rfl hlimits

end Shop

/-- The names of products are kept while the stored documents are not. -/
theorem Compiler.annotate_keeps_names :
    Shop.indexedCompiler.catalog.IsValid ∧ Shop.indexedCompiler.catalog.IsKeyed ∧
      ∃ compiled, Shop.indexedCompiler.compile Shop.searchedStored "Product" = .ok compiled ∧
        (Document.annotate compiled.projections Shop.storedRow).get? "name" =
          Shop.storedRow.get? "name" := by
  have hvalid : Shop.indexedCompiler.catalog.IsValid := rfl
  refine ⟨hvalid, Shop.indexed_isKeyed, _, Shop.compile_searchedStored, ?_⟩
  obtain ⟨e, he, hkeeps, -⟩ := Compiler.annotate_keeps hvalid Shop.indexed_isKeyed
    Shop.compile_searchedStored Shop.storedRow
  obtain rfl : Shop.indexed = e := Option.some.inj he
  have hrows := hkeeps [] Shop.indexed rfl (by
    intro before name after h
    cases before <;> simp at h)
  obtain ⟨hrow, -⟩ := List.forall₂_cons.mp hrows
  exact hrow.field "name" rfl rfl

/-- Annotation need not keep a declared field: the document of a search is stored in it. -/
theorem Compiler.annotate_overwrites_field :
    ¬∀ (c : Compiler) (f : Filter) (n : String) (e : Entity) (compiled : CompiledFilter)
        (row : Document), c.catalog.IsValid → c.catalog.IsKeyed → c.catalog.entity? n = some e →
      c.compile f n = .ok compiled → ∀ name, (e.field? name).isSome →
        (Document.annotate compiled.projections row).get? name = row.get? name := by
  intro hclaim
  have hkept := hclaim Shop.indexedCompiler Shop.searchedStored "Product" Shop.indexed _
    Shop.storedRow rfl Shop.indexed_isKeyed rfl Shop.compile_searchedStored "search_vector" rfl
  have hstored : (Document.annotate (Shop.indexedCompiler.projections Shop.searchedStored
      Shop.indexed) Shop.storedRow).get? "search_vector" = some (.text "lamp stored") := rfl
  have hread : Shop.storedRow.get? "search_vector" = some (.text "stored") := rfl
  rw [hstored, hread] at hkept
  simp at hkept

end EntityFilter
