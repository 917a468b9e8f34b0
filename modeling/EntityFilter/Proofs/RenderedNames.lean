import EntityFilter.Catalog.Validation
import EntityFilter.Proofs.AlikeRows
import EntityFilter.Proofs.QuotedTexts
import EntityFilter.Proofs.Tests

/-!
# The names in compiled filters

A compiled filter names relations, fields and projections.  A filter is free to ask for any name,
but what the catalog does not have is left out, and the names of a valid catalog are identifiers
(`Catalog.hasPlainNames_of_isValid`).  So no name in a predicate that leaves the compiler has a
quote in it (`Filter.unquoted_names`), and neither has a name in a projection
(`Compiler.unquoted_projection`): the names of projections are put together from such names.
-/

namespace EntityFilter

open Text

/-! ## Names -/

/-- The names in the source of a value. -/
def Source.names : Source → List String
  | field path => path.segments
  | projection handle => [handle.name]

namespace Predicate

mutual

/-- The names in a predicate. -/
def names : Predicate → List String
  | all ps | any ps => namesOfAll ps
  | negation p => names p
  | existence relation _ (some p) => relation.segments ++ names p
  | existence relation _ none => relation.segments
  | p => p.sources.flatMap Source.names

/-- The names in predicates. -/
def namesOfAll : List Predicate → List String
  | [] => []
  | p :: ps => names p ++ namesOfAll ps

end

variable {ps : List Predicate} {p : Predicate} {x : String}

lemma mem_namesOfAll : x ∈ namesOfAll ps ↔ ∃ p ∈ ps, x ∈ p.names := by
  induction ps with
  | nil => simp [namesOfAll]
  | cons p ps ih => simp [namesOfAll, ih]

/-- To have only such names is to look through the connectives. -/
lemma local_names (N : String → Prop) : Local fun p => ∀ x ∈ p.names, N x where
  all ps := by
    simp only [names, mem_namesOfAll]
    exact ⟨fun h p hp x hx => h x ⟨p, hp, hx⟩, fun h x ⟨p, hp, hx⟩ => h p hp x hx⟩
  any ps := by
    simp only [names, mem_namesOfAll]
    exact ⟨fun h p hp x hx => h x ⟨p, hp, hx⟩, fun h x ⟨p, hp, hx⟩ => h p hp x hx⟩
  negation p := by
    simp only [names]

/-- The names of a single test are those of its source. -/
lemma names_of_sources {source : Source} (h : p.sources = [source]) : p.names = source.names := by
  have hnames : p.names = p.sources.flatMap Source.names := by
    cases p with
    | existence | all | any | negation => simp [sources] at h
    | _ => rfl
  rw [hnames, h, List.flatMap_singleton]

end Predicate

/-- The fields that a ranking names. -/
def WindowSpec.names (w : WindowSpec) : List String :=
  w.partitionBy ++ w.orderBy.map OrderKey.field

/-- The names that the name of a projection is made from. -/
def ProjectionKey.names : ProjectionKey → List String
  | aggregate relation field _ | conditionalAggregate relation field _ _ =>
    relation.segments ++ field.toList
  | count relation => relation.segments
  | window path _ spec => path.segments ++ spec.names
  | subquery relation field orderBy =>
    relation.segments ++ field :: orderBy.map OrderKey.field
  | dateTrunc path field _ | dateExtract path field _ => path.segments ++ [field]
  | searchVector path _ _ | searchRank path _ _ => path.segments

/-- The names in an expression, those in the predicate of an aggregate aside. -/
def ProjectionExpr.names : ProjectionExpr → List String
  | aggregate _ relation field _ => relation.segments ++ field.toList
  | count relation => relation.segments
  | subquery relation field orderBy =>
    relation.segments ++ field :: orderBy.map OrderKey.field
  | window _ spec => spec.names
  | dateTrunc path _ | dateExtract path _ => path.segments
  | searchVector fields _ => fields.flatMap FieldPath.segments
  | searchRank vector _ _ _ => [vector.name]

/-! ## Names of projections -/

namespace ProjectionKey

variable {key : ProjectionKey}

lemma unquoted_under {path : RelationPath} {name : String} (hpath : ∀ x ∈ path.segments, Unquoted x)
    (hname : Unquoted name) : Unquoted (under path name) := by
  unfold under
  split
  · exact hname
  · rw [unquoted_append, unquoted_append]
    exact ⟨⟨unquoted_join (by decide) hpath, by decide⟩, hname⟩

lemma unquoted_aggregateName {field : Option String} (function : AggregateFunction)
    (hfield : ∀ x ∈ field.toList, Unquoted x) : Unquoted (aggregateName field function) := by
  have hfunction : Unquoted function.name := by cases function <;> decide
  cases field with
  | none => exact hfunction
  | some field =>
    rw [aggregateName, unquoted_append, unquoted_append]
    exact ⟨⟨hfield field (by simp), by decide⟩, hfunction⟩

lemma unquoted_fragments {ks : List OrderKey} (h : ∀ x ∈ ks.map OrderKey.field, Unquoted x) :
    Unquoted (OrderKey.fragments ks) := by
  refine unquoted_join (by decide) fun t ht => ?_
  obtain ⟨k, hk, rfl⟩ := List.mem_map.mp ht
  have hfield := h k.field (List.mem_map_of_mem hk)
  unfold OrderKey.fragment
  split
  · exact unquoted_append.mpr ⟨hfield, by decide⟩
  · exact hfield

lemma unquoted_fingerprintText (n : UInt32) : Unquoted (Document.fingerprintText n) := by
  intro hmem
  rw [Document.fingerprintText, String.toList_ofList, List.mem_map] at hmem
  obtain ⟨i, -, hi⟩ := hmem
  have hdigit : ∀ k < 16, hexDigit k ≠ '\'' := by decide
  exact hdigit _ (Nat.mod_lt _ (by decide)) hi

/-- What the names of a projection are made of has no quotes, and so they have none. -/
lemma unquoted_name (h : ∀ x ∈ key.names, Unquoted x) : Unquoted key.name := by
  have hlookup : ∀ path : RelationPath, (∀ x ∈ path.segments, Unquoted x) →
      Unquoted path.lookupName := fun _ hpath => unquoted_join (by decide) hpath
  cases key with
  | aggregate relation field function =>
    obtain ⟨hrelation, hfield⟩ := List.forall_mem_append.mp h
    simp only [name, unquoted_append, hlookup _ hrelation, unquoted_aggregateName function hfield,
      true_and, and_true]
    decide
  | conditionalAggregate relation field function n =>
    obtain ⟨hrelation, hfield⟩ := List.forall_mem_append.mp h
    simp only [name, unquoted_append, hlookup _ hrelation, unquoted_aggregateName function hfield,
      unquoted_fingerprintText, true_and, and_true]
    decide
  | count relation => exact unquoted_append.mpr ⟨hlookup _ h, by decide⟩
  | window path function spec =>
    obtain ⟨hpath, hspec⟩ := List.forall_mem_append.mp h
    obtain ⟨hpartition, horder⟩ := List.forall_mem_append.mp hspec
    have hfunction : Unquoted ("window_" ++ function.name) := by cases function <;> decide
    refine unquoted_under hpath (unquoted_append.mpr ⟨hfunction, ?_⟩)
    rw [WindowSpec.suffix, unquoted_append]
    constructor
    · split
      · decide
      · exact unquoted_append.mpr ⟨by decide, unquoted_join (by decide) hpartition⟩
    · split
      · decide
      · exact unquoted_append.mpr ⟨by decide, unquoted_fragments horder⟩
  | subquery relation field orderBy =>
    obtain ⟨hrelation, hfields⟩ := List.forall_mem_append.mp h
    obtain ⟨hfield, horder⟩ := List.forall_mem_cons.mp hfields
    simp only [name, unquoted_append, hlookup _ hrelation, hfield, true_and, and_true]
    refine ⟨by decide, ?_⟩
    split
    · decide
    · exact unquoted_append.mpr ⟨by decide, unquoted_fragments horder⟩
  | dateTrunc path field kind =>
    obtain ⟨hpath, hfield⟩ := List.forall_mem_append.mp h
    have hkind : Unquoted ("_trunc_" ++ kind.name) := by cases kind <;> decide
    rw [unquoted_append] at hkind
    refine unquoted_under hpath ?_
    rw [unquoted_append, unquoted_append]
    exact ⟨⟨hfield field List.mem_cons_self, hkind.1⟩, hkind.2⟩
  | dateExtract path field part =>
    obtain ⟨hpath, hfield⟩ := List.forall_mem_append.mp h
    have hpart : Unquoted ("_extract_" ++ part.name) := by cases part <;> decide
    rw [unquoted_append] at hpart
    refine unquoted_under hpath ?_
    rw [unquoted_append, unquoted_append]
    exact ⟨⟨hfield field List.mem_cons_self, hpart.1⟩, hpart.2⟩
  | searchVector path fields config | searchRank path query mode =>
    exact unquoted_under h (by decide)

end ProjectionKey

/-! ## Names in a catalog -/

lemma unquoted_of_isIdentifier {s : String} (h : isIdentifier s) : Unquoted s := by
  intro hmem
  unfold isIdentifier at h
  cases hs : s.toList with
  | nil =>
    rw [hs] at hmem
    cases hmem
  | cons c cs =>
    rw [hs] at h hmem
    rw [Bool.and_eq_true, List.all_eq_true] at h
    rcases List.mem_cons.mp hmem with rfl | hmem
    · exact absurd h.1 (by decide)
    · exact absurd (h.2 _ hmem) (by decide)

/-- The names of a sound entity have no quotes in them. -/
structure Entity.HasPlainNames (e : Entity) : Prop where
  sound : e.IsSound
  field : ∀ {name f}, e.field? name = some f → Unquoted name
  relation : ∀ {name r}, e.relation? name = some r → Unquoted name

/-- The names of all entities have no quotes in them. -/
def Catalog.HasPlainNames (c : Catalog) : Prop := ∀ {n e}, c.entity? n = some e → e.HasPlainNames

lemma Entity.HasPlainNames.primaryKey {e : Entity} (h : e.HasPlainNames) : Unquoted e.primaryKey :=
  have ⟨_, hf⟩ := h.sound.primaryKey
  h.field hf

lemma Entity.hasPlainNames_of_faults {c : Catalog} {e : Entity} (h : e.faults c = [])
    (hk : e.IsKeyed) : e.HasPlainNames := by
  have hsound := Entity.isSound_of_faults h hk
  simp only [faults, List.append_eq_nil_iff, List.flatMap_eq_nil_iff, ite_eq_left_iff,
    List.cons_ne_nil, imp_false, not_not] at h
  have hfield : ∀ {name f}, e.field? name = some f → Unquoted name := by
    intro name f hf
    have hmem := Entries.mem_of_get? hf
    have hname : f.name = name := hk.field _ hmem
    rw [← hname]
    exact unquoted_of_isIdentifier (h.1.2 f (List.mem_map.mpr ⟨_, hmem, rfl⟩))
  refine ⟨hsound, hfield, fun {name r} hr => ?_⟩
  have hmem := Entries.mem_of_get? hr
  have hname : r.name = name := hk.relation _ hmem
  rw [← hname]
  exact unquoted_of_isIdentifier (h.2 r (List.mem_map.mpr ⟨_, hmem, rfl⟩)).1.1

/-- **The names of a valid catalog have no quotes in them.** -/
theorem Catalog.hasPlainNames_of_isValid {c : Catalog} (h : c.IsValid) (hk : c.IsKeyed) :
    c.HasPlainNames := by
  intro n e he
  have hmem := mem_values_of_entity? he
  exact Entity.hasPlainNames_of_faults (List.flatMap_eq_nil_iff.mp h e hmem) (hk e hmem)

/-! ## Names in scopes -/

/-- The entity of a scope is in the catalog, and the relations that lead to it have names without
quotes. -/
structure Scope.HasPlainNames (c : Compiler) (s : Scope) : Prop where
  entity : ∃ n, c.catalog.entity? n = some s.entity
  rows : ∀ x ∈ s.rows.segments, Unquoted x
  joined : ∀ x ∈ s.joined.segments, Unquoted x

namespace Scope.HasPlainNames

variable {c : Compiler} {s inner : Scope} {name : String} {r : Relation} {target : Entity}
  {f : Field}

lemma of_entity {n : String} {e : Entity} (he : c.catalog.entity? n = some e) :
    Scope.HasPlainNames c { entity := e } :=
  ⟨⟨n, he⟩, List.forall_mem_nil _, List.forall_mem_nil _⟩

lemma field (hs : s.HasPlainNames c) (hc : c.catalog.HasPlainNames)
    (hf : s.entity.field? name = some f) : Unquoted name := by
  obtain ⟨n, hn⟩ := hs.entity
  exact (hc hn).field hf

lemma hasField (hs : s.HasPlainNames c) (hc : c.catalog.HasPlainNames)
    (hf : s.entity.hasField name) : Unquoted name := by
  obtain ⟨f, hf⟩ := Option.isSome_iff_exists.mp hf
  exact hs.field hc hf

lemma primaryKey (hs : s.HasPlainNames c) (hc : c.catalog.HasPlainNames) :
    Unquoted s.entity.primaryKey := by
  obtain ⟨n, hn⟩ := hs.entity
  exact (hc hn).primaryKey

lemma searchable (hs : s.HasPlainNames c) (hc : c.catalog.HasPlainNames) {names : List String}
    (hf : f ∈ s.entity.searchable names) : Unquoted f.name := by
  obtain ⟨n, hn⟩ := hs.entity
  exact (hc hn).field ((hc hn).sound.searchable hf)

/-- A relation of the scope, and the entity that it leads to. -/
lemma relation (hs : s.HasPlainNames c) (hc : c.catalog.HasPlainNames)
    (hr : c.relation? s name = some (r, target)) :
    Unquoted name ∧ ∃ n, c.catalog.entity? n = some target := by
  obtain ⟨n, hn⟩ := hs.entity
  obtain ⟨hrelation, htarget⟩ := Catalog.resolve?_eq_some.mp hr
  exact ⟨(hc hn).relation hrelation, r.target, htarget⟩

lemma fieldPath (hs : s.HasPlainNames c) (hname : Unquoted name) :
    ∀ x ∈ (s.fieldPath name).segments, Unquoted x := by
  refine List.forall_mem_append.mpr ⟨hs.joined, ?_⟩
  exact List.forall_mem_singleton.mpr hname

lemma relationPath (hs : s.HasPlainNames c) (hname : Unquoted name) :
    ∀ x ∈ (s.relationPath name).segments, Unquoted x :=
  hs.fieldPath hname

lemma path (hs : s.HasPlainNames c) : ∀ x ∈ s.path.segments, Unquoted x :=
  List.forall_mem_append.mpr ⟨hs.rows, hs.joined⟩

lemma fullPath (hs : s.HasPlainNames c) (hname : Unquoted name) :
    ∀ x ∈ (s.fullPath name).segments, Unquoted x :=
  List.forall_mem_append.mpr ⟨hs.path, List.forall_mem_singleton.mpr hname⟩

lemma join (hs : s.HasPlainNames c) (hc : c.catalog.HasPlainNames)
    (hr : c.relation? s name = some (r, target)) : (s.join name target).HasPlainNames c := by
  obtain ⟨hname, htarget⟩ := hs.relation hc hr
  exact ⟨htarget, hs.rows, hs.relationPath hname⟩

lemma enter (hs : s.HasPlainNames c) (hc : c.catalog.HasPlainNames)
    (hr : c.relation? s name = some (r, target)) : (s.enter name target).HasPlainNames c := by
  obtain ⟨hname, htarget⟩ := hs.relation hc hr
  exact ⟨htarget, hs.fullPath hname, List.forall_mem_nil _⟩

/-- **The walk meets no other names.** -/
theorem of_mem_visits (hs : s.HasPlainNames c) (hc : c.catalog.HasPlainNames) {filter : Filter}
    {v : Visit} (hv : v ∈ filter.visits c s) : v.scope.HasPlainNames c := by
  refine filter.scope_of_mem_visits hs (fun v _ hv inner hopens => ?_) v hv
  cases Visit.steps_of_opens hopens with
  | join _ hr _ => exact hv.join hc hr
  | enter _ hr => exact hv.enter hc hr

end Scope.HasPlainNames

/-! ## Names of what is asked for -/

section

variable {c : Compiler} {set : ProjectionSet} {s : Scope} {v : Visit} {key : ProjectionKey}
  {expr : ProjectionExpr} {handle : ProjectionHandle} {p : Predicate}

lemma Compiler.unquoted_of_toMany? (hs : s.HasPlainNames c) (hc : c.catalog.HasPlainNames)
    {name : String} {target : Entity} (h : c.toMany? s name = some target) :
    Unquoted name ∧ target.HasPlainNames := by
  obtain ⟨-, r, hr, -⟩ := toMany?_eq_some.mp h
  obtain ⟨hname, n, hn⟩ := hs.relation hc hr
  exact ⟨hname, hc hn⟩

lemma Compiler.unquoted_of_searchFields? (hs : s.HasPlainNames c) (hc : c.catalog.HasPlainNames)
    {search : SearchFilter} {fields : List String} (h : searchFields? s search = some fields) :
    ∀ x ∈ fields, Unquoted x := by
  obtain ⟨n, hn⟩ := hs.entity
  intro x hx
  obtain ⟨f, hf⟩ := field?_of_searchFields? (hc hn).sound h x hx
  exact hs.field hc hf

/-- **What is planned is named by the catalog.** -/
theorem Visit.Plans.unquoted (h : v.Plans c set key expr) (hs : v.scope.HasPlainNames c)
    (hc : c.catalog.HasPlainNames) :
    (∀ x ∈ key.names, Unquoted x) ∧ ∀ x ∈ expr.names, Unquoted x := by
  have hpath := hs.path
  cases h with
  | aggregate _ htarget hfield | conditionalAggregate _ _ _ htarget hfield =>
    obtain ⟨hname, hnames⟩ := Compiler.unquoted_of_toMany? hs hc htarget
    have hfield : ∀ x ∈ Option.toList _, Unquoted x := fun x hx =>
      have ⟨f, hf⟩ := hfield x (Option.mem_toList.mp hx)
      hnames.field hf
    exact ⟨List.forall_mem_append.mpr ⟨hs.fullPath hname, hfield⟩,
      List.forall_mem_append.mpr ⟨hs.relationPath hname, hfield⟩⟩
  | count _ _ htarget =>
    obtain ⟨hname, -⟩ := Compiler.unquoted_of_toMany? hs hc htarget
    exact ⟨hs.fullPath hname, hs.relationPath hname⟩
  | @window _ w _ _ _ hpartition horder =>
    have hspec : ∀ x ∈ w.spec.names, Unquoted x := by
      refine List.forall_mem_append.mpr ⟨fun x hx => hs.hasField hc (hpartition x hx), ?_⟩
      exact List.forall_mem_map.mpr fun k hk => hs.hasField hc (horder k hk)
    exact ⟨List.forall_mem_append.mpr ⟨hpath, hspec⟩, hspec⟩
  | @subquery _ q _ _ _ _ htarget hfield horder =>
    obtain ⟨hname, hnames⟩ := Compiler.unquoted_of_toMany? hs hc htarget
    obtain ⟨f, hf⟩ := hfield
    have hfields : ∀ x ∈ q.field :: q.orderBy.map OrderKey.field, Unquoted x := by
      refine List.forall_mem_cons.mpr ⟨hnames.field hf, List.forall_mem_map.mpr fun k hk => ?_⟩
      obtain ⟨g, hg⟩ := Option.isSome_iff_exists.mp (horder k hk)
      exact hnames.field hg
    exact ⟨List.forall_mem_append.mpr ⟨hs.fullPath hname, hfields⟩,
      List.forall_mem_append.mpr ⟨hs.relationPath hname, hfields⟩⟩
  | dateTrunc _ _ hf _ | dateExtract _ _ hf _ =>
    have hname := hs.field hc hf
    exact ⟨List.forall_mem_append.mpr ⟨hpath, List.forall_mem_singleton.mpr hname⟩,
      hs.fieldPath hname⟩
  | searchVector _ _ hfields =>
    refine ⟨hpath, fun x hx => ?_⟩
    obtain ⟨path, hmem, hx⟩ := List.mem_flatMap.mp hx
    obtain ⟨name, hname, rfl⟩ := List.mem_map.mp hmem
    exact hs.fieldPath (Compiler.unquoted_of_searchFields? hs hc hfields name hname) x hx
  | searchRank _ _ hlookup =>
    obtain ⟨hname, -⟩ := ProjectionSet.lookup?_eq_some.mp hlookup
    refine ⟨hpath, List.forall_mem_singleton.mpr ?_⟩
    rw [hname]
    exact ProjectionKey.unquoted_name hpath

/-! ## Names in predicates -/

/-- What a leaf is applied to has names without quotes. -/
lemma Visit.Offers.unquoted {o : Operand} {kind : FieldKind} (h : v.Offers c set o kind)
    (hs : v.scope.HasPlainNames c) (hc : c.catalog.HasPlainNames) :
    ∀ x ∈ o.source.names, Unquoted x := by
  cases h with
  | field hf _ => exact hs.fieldPath (hs.field hc hf)
  | key => exact hs.fieldPath (hs.primaryKey hc)
  | keyOfRow _ _ hr _ =>
    obtain ⟨hname, n, hn⟩ := hs.relation hc hr
    refine List.forall_mem_append.mpr ⟨hs.relationPath hname, ?_⟩
    exact List.forall_mem_singleton.mpr (hc hn).primaryKey
  | projection hasks hlookup =>
    obtain ⟨hname, -⟩ := ProjectionSet.lookup?_eq_some.mp hlookup
    have hplans : v.Plans c set _ _ := Visit.plans_of_mem_asks hasks
    refine List.forall_mem_singleton.mpr ?_
    rw [hname]
    exact ProjectionKey.unquoted_name (hplans.unquoted hs hc).1

/-- The names in what a leaf says are those of what it is applied to. -/
lemma Leaf.unquoted_names {l : Leaf} {o : Operand} {kind : FieldKind} {now : Instant}
    (h : l.predicate? o kind now = some p) (ho : ∀ x ∈ o.source.names, Unquoted x) :
    ∀ x ∈ p.names, Unquoted x := by
  refine Leaf.predicate?_of_local (Predicate.local_names Unquoted) (fun q hq => ?_) h
  rw [Predicate.names_of_sources hq]
  exact ho

lemma Visit.unquoted_names (h : v.predicate? c set = some p) (hs : v.scope.HasPlainNames c)
    (hc : c.catalog.HasPlainNames) : ∀ x ∈ p.names, Unquoted x := by
  have hQ := Predicate.local_names Unquoted
  have hplanned : ∀ {key handle}, set.lookup? key = some handle →
      key.names = v.scope.path.segments → ∀ x ∈ [handle.name], Unquoted x := by
    intro key handle hlookup hnames
    obtain ⟨hname, -⟩ := ProjectionSet.lookup?_eq_some.mp hlookup
    refine List.forall_mem_singleton.mpr ?_
    rw [hname]
    exact ProjectionKey.unquoted_name (hnames ▸ hs.path)
  refine Visit.predicate?_of_builds ⟨hQ.and?, hQ.or?,
    fun _ ho hp => Leaf.unquoted_names hp (ho.unquoted hs hc),
    fun _ _ _ hr hp => ?_, fun _ hf => ?_, fun _ hf hg => ?_, fun _ hplan hl => ?_,
    fun _ _ hplan _ hrank hl => ?_⟩ h
  · obtain ⟨hname, n, hn⟩ := hs.relation hc hr
    refine List.forall_mem_append.mpr ⟨hs.relationPath hname, Leaf.unquoted_names hp ?_⟩
    exact List.forall_mem_singleton.mpr (hc hn).primaryKey
  · rw [Predicate.names_of_sources rfl]
    exact hs.fieldPath (hs.searchable hc hf)
  · refine List.forall_mem_append.mpr ⟨hs.fieldPath (hs.field hc hf), ?_⟩
    exact List.forall_mem_append.mpr ⟨hs.fieldPath (hs.field hc hg), List.forall_mem_nil _⟩
  · obtain ⟨hvector, -⟩ := Compiler.planSearch?_eq_some hplan
    rw [hvector] at hl
    exact hplanned hl rfl
  · obtain ⟨-, hplanned', -⟩ := Compiler.planSearch?_eq_some hplan
    rw [hplanned'] at hrank
    obtain ⟨-, -, rfl⟩ := Option.map_eq_some_iff.mp hrank
    exact hplanned hl rfl

/-- To have no quotes in its names is carried from the entries to the filter. -/
lemma Compiler.carries_unquoted_names (hc : c.catalog.HasPlainNames) :
    c.Carries fun s p => s.HasPlainNames c → ∀ x ∈ p.names, Unquoted x where
  and? h hand hs := (Predicate.local_names Unquoted).and? (fun q hq => h q hq hs) hand
  or? h hor hs := (Predicate.local_names Unquoted).or? (fun q hq => h q hq hs) hor
  not h hs := (Predicate.local_names Unquoted).not (h hs)
  included s values hs := by
    rw [Predicate.names_of_sources rfl]
    exact hs.fieldPath (hs.primaryKey hc)
  join _ _ hr _ h hs := h (hs.join hc hr)
  someRow _ _ hr hs := hs.relationPath (hs.relation hc hr).1
  someRowWith _ _ hr h hs :=
    List.forall_mem_append.mpr ⟨hs.relationPath (hs.relation hc hr).1, h (hs.enter hc hr)⟩

/-- **A predicate of a filter has no quotes in its names.** -/
theorem Filter.unquoted_names {f : Filter} (h : f.predicate? c set s = some p)
    (hs : s.HasPlainNames c) (hc : c.catalog.HasPlainNames) : ∀ x ∈ p.names, Unquoted x := by
  refine Filter.predicate?_of_carries (Compiler.carries_unquoted_names hc) f
    (fun v hv => ⟨fun _ _ => trivial, fun q hq hs' => ?_⟩) p h hs
  exact Visit.unquoted_names hq hs' hc

/-! ## Names in projections -/

/-- The names in a projection have no quotes: its own name, those of the relations to its rows, and
those in its expression and in the predicate that picks the rows of an aggregate. -/
structure Projection.HasPlainNames (r : Projection) : Prop where
  name : Unquoted r.name
  scope : ∀ x ∈ r.scope.segments, Unquoted x
  expr : ∀ x ∈ r.expr.names, Unquoted x
  filter : ∀ q, r.expr.filter? = some q → ∀ x ∈ q.names, Unquoted x

/-- **A projection has no quotes in its names.** -/
theorem Compiler.unquoted_projection {f : Filter} {e : Entity} {n : String} {r : Projection}
    (hr : r ∈ (c.projections f e).toList) (he : c.catalog.entity? n = some e)
    (hc : c.catalog.HasPlainNames) : r.HasPlainNames := by
  rw [Compiler.projections_eq_requests] at hr
  obtain ⟨v, hv, hr⟩ := List.mem_flatMap.mp (ProjectionSet.mem_of_mem_toList_ofRequests hr)
  have hs := (Scope.HasPlainNames.of_entity he).of_mem_visits hc hv
  obtain ⟨hkey, hexpr⟩ := (Visit.plans_of_mem_requests hr).unquoted hs hc
  refine ⟨ProjectionKey.unquoted_name hkey, ?_, hexpr, fun q hq => ?_⟩
  · rw [Visit.scope_of_mem_requests hr]
    exact hs.rows
  · rw [Visit.filter?_of_mem_requests hr] at hq
    obtain ⟨a, condition, -, -, hcondition⟩ := Visit.filter?_eq_some hq
    obtain ⟨target, htarget, hcondition⟩ := Option.bind_eq_some_iff.mp hcondition
    obtain ⟨-, relation, hrelation, -⟩ := toMany?_eq_some.mp htarget
    exact Filter.unquoted_names hcondition (hs.enter hc hrelation) hc

end

end EntityFilter
