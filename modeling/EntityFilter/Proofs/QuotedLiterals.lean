import EntityFilter.Proofs.RenderedNames

/-!
# Texts of filters in printed queries

A compiled filter is printed like a query.  Texts that come from the filter are printed between
single quotes, and `CompiledFilter.insets` lists them in order; what stands around them are fixed
words, numbers and names, and the names have no quotes (`CompiledFilter.setsOff_render`).

Most texts are printed with their quotes doubled.  Documents and the configurations of searches are
printed as they are.  So a reader of the query finds each text between its own quotes, and nothing
but these texts, exactly if documents and configurations have their quotes in pairs
(`Compiler.literals?_render`).  A document with a single quote in it ends its own text and begins
another one, which nothing closes (`Compiler.quote_leaves_document`).
-/

namespace EntityFilter

open Text

/-! ## Words -/

lemma CompareOp.unquoted_symbol (op : CompareOp) : Unquoted op.symbol := by cases op <;> decide

lemma SearchMode.unquoted_queryFunction (mode : SearchMode) : Unquoted mode.queryFunction := by
  cases mode <;> decide

lemma RelationPath.unquoted_render {path : RelationPath} (h : ∀ x ∈ path.segments, Unquoted x) :
    Unquoted path.render :=
  unquoted_join (by decide) h

lemma FieldPath.unquoted_render {path : FieldPath} (h : ∀ x ∈ path.segments, Unquoted x) :
    Unquoted path.render :=
  unquoted_join (by decide) h

lemma DatePart.unquoted_renderOf (part : DatePart) {path : FieldPath}
    (h : ∀ x ∈ path.segments, Unquoted x) : Unquoted (part.renderOf path) := by
  have hpart : Unquoted ("EXTRACT(" ++ part.sql ++ " FROM ") := by cases part <;> decide
  exact unquoted_append.mpr ⟨unquoted_append.mpr ⟨hpart, FieldPath.unquoted_render h⟩, by decide⟩

lemma OrderKey.unquoted_join_render {separator : String} {ks : List OrderKey}
    (hseparator : Unquoted separator) (h : ∀ x ∈ ks.map OrderKey.field, Unquoted x) :
    Unquoted (join separator (ks.map OrderKey.render)) := by
  refine unquoted_join hseparator (List.forall_mem_map.mpr fun k hk => ?_)
  have hdirection : Unquoted (" " ++ k.direction) := by
    unfold OrderKey.direction
    split <;> decide
  rw [unquoted_append] at hdirection
  rw [OrderKey.render, unquoted_append, unquoted_append]
  exact ⟨⟨h k.field (List.mem_map_of_mem hk), hdirection.1⟩, hdirection.2⟩

lemma WindowSpec.unquoted_render {w : WindowSpec} (h : ∀ x ∈ w.names, Unquoted x) :
    Unquoted w.render := by
  obtain ⟨hpartition, horder⟩ := List.forall_mem_append.mp h
  have hparts : ∀ x ∈ (if w.partitionBy.isEmpty then []
        else ["PARTITION BY " ++ join ", " w.partitionBy]) ++
      (if w.orderBy.isEmpty then []
        else ["ORDER BY " ++ join ", " (w.orderBy.map OrderKey.render)]), Unquoted x := by
    refine List.forall_mem_append.mpr ⟨?_, ?_⟩
    · split
      · exact List.forall_mem_nil _
      · exact List.forall_mem_singleton.mpr
          (unquoted_append.mpr ⟨by decide, unquoted_join (by decide) hpartition⟩)
    · split
      · exact List.forall_mem_nil _
      · exact List.forall_mem_singleton.mpr
          (unquoted_append.mpr ⟨by decide, OrderKey.unquoted_join_render (by decide) horder⟩)
  exact unquoted_append.mpr
    ⟨unquoted_append.mpr ⟨by decide, unquoted_join (by decide) hparts⟩, by decide⟩

lemma Operand.unquoted_render {o : Operand} (h : ∀ x ∈ o.source.names, Unquoted x) :
    Unquoted o.render := by
  cases o with
  | field path => exact FieldPath.unquoted_render h
  | projection handle => exact h _ List.mem_cons_self
  | datePart path part => exact part.unquoted_renderOf h
  | arrayLength path =>
    exact unquoted_append.mpr
      ⟨unquoted_append.mpr ⟨by decide, FieldPath.unquoted_render h⟩, by decide⟩

/-- What a search is called with: its configuration as it is, then its query. -/
lemma setsOff_searchCall (config query : String) :
    SetsOff ("('" ++ config ++ "', " ++ Literal.quote query ++ ")")
      [.raw config, .doubled query] := by
  have hconfig : SetsOff ("(" ++ ("'" ++ config ++ "'")) [.raw config] :=
    (setsOff_inset (.raw config)).behind (by decide)
  have hquery : SetsOff (Literal.quote query ++ ")") [.doubled query] :=
    (setsOff_inset (.doubled query)).before (by decide)
  have hcall : SetsOff ("(" ++ ("'" ++ config ++ "'") ++
      (", " ++ (Literal.quote query ++ ")"))) _ :=
    hconfig.between hquery (by decide) (by decide)
  simp only [String.append_assoc] at hcall ⊢
  exact hcall

/-! ## Predicates -/

namespace Predicate

mutual

/-- The texts that stand between quotes in a predicate, in order. -/
def insets : Predicate → List Inset
  | compare _ _ value => value.insets
  | member _ values _ | array _ _ values => (Literal.list values).insets
  | text _ kind value _ => [.doubled (kind.pattern value)]
  | regex _ pattern _ => [.doubled pattern]
  | keys _ names _ => (Literal.list (names.map Literal.text)).insets
  | search _ query _ config => [.raw config, .doubled query]
  | existence _ _ (some p) | negation p => insets p
  | all ps | any ps => insetsOfAll ps
  | compareOperands _ _ _ | isNull _ _ | existence _ _ none => []

/-- The texts that stand between quotes in predicates. -/
def insetsOfAll : List Predicate → List Inset
  | [] => []
  | p :: ps => insets p ++ insetsOfAll ps

end

lemma insetsOfAll_eq_flatMap (ps : List Predicate) : insetsOfAll ps = ps.flatMap insets := by
  induction ps with
  | nil => rfl
  | cons p ps ih => rw [insetsOfAll, ih, List.flatMap_cons]

lemma renderAll_eq_map (ps : List Predicate) : renderAll ps = ps.map render := by
  induction ps with
  | nil => rfl
  | cons p ps ih => rw [renderAll, ih, List.map_cons]

/-- The operand of a single test is printed without quotes. -/
lemma unquoted_operand {p : Predicate} {o : Operand} (h : ∀ x ∈ p.names, Unquoted x)
    (hp : p.sources = [o.source]) : Unquoted o.render :=
  Operand.unquoted_render (names_of_sources hp ▸ h)

mutual

/-- **A printed predicate sets its texts off by quotes** if there are none in its names. -/
theorem setsOff_render : ∀ p : Predicate, (∀ x ∈ p.names, Unquoted x) → SetsOff p.render p.insets
  | compare left op value, h => by
    refine (Literal.setsOff_render value).behind ?_
    simp only [unquoted_append, unquoted_operand h rfl, op.unquoted_symbol, true_and, and_true]
    decide
  | compareOperands left op right, h => by
    obtain ⟨hleft, hright⟩ := List.forall_mem_append.mp h
    have hright : ∀ x ∈ right.source.names, Unquoted x := fun x hx =>
      hright x (List.mem_append_left _ hx)
    refine setsOff_of_unquoted ?_
    simp only [render, unquoted_append, Operand.unquoted_render hleft,
      Operand.unquoted_render hright, op.unquoted_symbol, true_and, and_true]
    decide
  | member operand values negated, h => by
    refine (Literal.setsOff_render (.list values)).behind ?_
    refine unquoted_append.mpr ⟨unquoted_operand h rfl, ?_⟩
    split <;> decide
  | isNull operand negated, h => by
    refine setsOff_of_unquoted (unquoted_append.mpr ⟨unquoted_operand h rfl, ?_⟩)
    split <;> decide
  | text operand kind value ignoreCase, h => by
    refine (setsOff_inset (.doubled _)).behind ?_
    refine unquoted_append.mpr ⟨unquoted_operand h rfl, ?_⟩
    split <;> decide
  | regex operand pattern ignoreCase, h => by
    refine (setsOff_inset (.doubled pattern)).behind ?_
    refine unquoted_append.mpr ⟨unquoted_operand h rfl, ?_⟩
    split <;> decide
  | keys operand names mode, h => by
    have hmode : Unquoted mode.symbol := by cases mode <;> decide
    refine (Literal.setsOff_render (.list _)).behind ?_
    simp only [unquoted_append, unquoted_operand h rfl, hmode, true_and, and_true]
    decide
  | array operand kind values, h => by
    have hkind : Unquoted kind.symbol := by cases kind <;> decide
    refine (Literal.setsOff_render (.list values)).behind ?_
    simp only [unquoted_append, unquoted_operand h rfl, hkind, true_and, and_true]
    decide
  | existence relation _ none, h => by
    refine setsOff_of_unquoted ?_
    simp only [render, unquoted_append, RelationPath.unquoted_render h, and_true]
    decide
  | existence relation _ (some p), h => by
    obtain ⟨hrelation, hp⟩ := List.forall_mem_append.mp h
    refine ((setsOff_render p hp).behind ?_).before (by decide)
    simp only [unquoted_append, RelationPath.unquoted_render hrelation, and_true]
    decide
  | search vector query mode config, h => by
    have hvector : Unquoted vector.name := h _ List.mem_cons_self
    have hcall := (setsOff_searchCall config query).behind
      (s := vector.name ++ " @@ " ++ mode.queryFunction) (by
        simp only [unquoted_append, hvector, mode.unquoted_queryFunction, true_and, and_true]
        decide)
    simp only [render, String.append_assoc] at hcall ⊢
    exact hcall
  | all ps, h => by
    have hps : SetsOff (join " AND " (ps.map render)) (ps.flatMap insets) :=
      setsOff_join (by decide) (by decide) (setsOff_render_of_mem ps h)
    rw [render, renderAll_eq_map, insets, insetsOfAll_eq_flatMap]
    exact (hps.behind (by decide)).before (by decide)
  | any ps, h => by
    have hps : SetsOff (join " OR " (ps.map render)) (ps.flatMap insets) :=
      setsOff_join (by decide) (by decide) (setsOff_render_of_mem ps h)
    rw [render, renderAll_eq_map, insets, insetsOfAll_eq_flatMap]
    exact (hps.behind (by decide)).before (by decide)
  | negation p, h => (setsOff_render p h).behind (by decide)

theorem setsOff_render_of_mem : ∀ ps : List Predicate, (∀ x ∈ namesOfAll ps, Unquoted x) →
    ∀ p ∈ ps, SetsOff p.render p.insets
  | [], _ => List.forall_mem_nil _
  | p :: ps, h => by
    obtain ⟨hhead, htail⟩ := List.forall_mem_append.mp h
    exact List.forall_mem_cons.mpr ⟨setsOff_render p hhead, setsOff_render_of_mem ps htail⟩

end

end Predicate

/-! ## Projections -/

lemma TruncKind.unquoted_name (kind : TruncKind) : Unquoted kind.name := by cases kind <;> decide

/-- The blank that stands between the fields of a search. -/
def Inset.blank : Inset := .fixed " " (by decide)

/-- Names with blanks between them. -/
lemma Text.setsOff_joinBlanks : ∀ {names : List String}, (∀ x ∈ names, Unquoted x) →
    SetsOff (join " || ' ' || " names) (List.replicate (names.length - 1) .blank)
  | [], _ => .nil
  | [x], h => setsOff_of_unquoted (h x List.mem_cons_self)
  | x :: y :: names, h => by
    obtain ⟨hx, hnames⟩ := List.forall_mem_cons.mp h
    have hseparator : " || ' ' || " =
        " || " ++ (("'" ++ Inset.blank.written ++ "'") ++ " || ") := by
      decide
    have hjoin : join " || ' ' || " (x :: y :: names) =
        x ++ " || ' ' || " ++ join " || ' ' || " (y :: names) :=
      String.intercalate_cons_of_ne_nil (List.cons_ne_nil y names)
    have hblank : SetsOff (("'" ++ Inset.blank.written ++ "'") ++
        (" || " ++ join " || ' ' || " (y :: names))) _ :=
      (setsOff_inset .blank).between (setsOff_joinBlanks hnames) (by decide) (by decide)
    rw [hjoin]
    generalize join " || ' ' || " (y :: names) = rest at hblank ⊢
    rw [hseparator, String.append_assoc, String.append_assoc, String.append_assoc]
    exact (hblank.behind (by decide)).behind hx

namespace ProjectionExpr

/-- The texts that stand between quotes in an expression, in order. -/
def insets : ProjectionExpr → List Inset
  | aggregate _ _ _ (some p) => p.insets
  | dateTrunc _ kind => [.fixed kind.name kind.unquoted_name]
  | searchVector fields config => .raw config :: List.replicate (fields.length - 1) .blank
  | searchRank _ query _ config => [.raw config, .doubled query]
  | aggregate _ _ _ none | count _ | subquery _ _ _ | window _ _ | dateExtract _ _ => []

variable {expr : ProjectionExpr}

/-- What is aggregated, as it is printed. -/
def aggregated (function : AggregateFunction) (relation : String) : Option String → String
  | some field =>
    (if function = .countDistinct then "DISTINCT " else "") ++ relation ++ "." ++ field
  | none => relation

lemma unquoted_aggregated {relation : String} {field : Option String}
    (function : AggregateFunction) (hrelation : Unquoted relation)
    (hfield : ∀ x ∈ field.toList, Unquoted x) :
    Unquoted (aggregated function relation field) := by
  cases field with
  | none => exact hrelation
  | some field =>
    simp only [aggregated, unquoted_append, hrelation, hfield field List.mem_cons_self, and_true]
    split <;> decide

/-- A printed expression sets its texts off by quotes if there are none in its names. -/
lemma setsOff_render (h : ∀ x ∈ expr.names, Unquoted x)
    (hfilter : ∀ q, expr.filter? = some q → ∀ x ∈ q.names, Unquoted x) :
    SetsOff expr.render expr.insets := by
  cases expr with
  | aggregate function relation field filter =>
    obtain ⟨hrelation, hfield⟩ := List.forall_mem_append.mp h
    have hinner := unquoted_aggregated function (RelationPath.unquoted_render hrelation) hfield
    have hfunction : Unquoted (function.sql ++ "(") := by cases function <;> decide
    have hcall := unquoted_append.mpr ⟨unquoted_append.mpr ⟨hfunction, hinner⟩,
      (by decide : Unquoted ")")⟩
    cases filter with
    | none => exact setsOff_of_unquoted (unquoted_append.mpr ⟨hcall, by decide⟩)
    | some p =>
      have hp := p.setsOff_render (hfilter p rfl)
      exact ((hp.behind (by decide)).before (by decide)).behind hcall
  | count relation =>
    refine setsOff_of_unquoted (unquoted_append.mpr ⟨unquoted_append.mpr ⟨?_, ?_⟩, ?_⟩)
    · decide
    · exact RelationPath.unquoted_render h
    · decide
  | subquery relation field orderBy =>
    obtain ⟨hrelation, hfields⟩ := List.forall_mem_append.mp h
    obtain ⟨hfield, horder⟩ := List.forall_mem_cons.mp hfields
    have hselect : Unquoted ("(SELECT " ++ field ++ " FROM " ++ relation.render) := by
      simp only [unquoted_append, RelationPath.unquoted_render hrelation, hfield, and_true]
      decide
    refine setsOff_of_unquoted (unquoted_append.mpr ⟨unquoted_append.mpr ⟨hselect, ?_⟩, by decide⟩)
    split
    · decide
    · exact unquoted_append.mpr ⟨by decide, OrderKey.unquoted_join_render (by decide) horder⟩
  | window function spec =>
    have hfunction : Unquoted (function.sql ++ "() ") := by cases function <;> decide
    exact setsOff_of_unquoted (unquoted_append.mpr ⟨hfunction, WindowSpec.unquoted_render h⟩)
  | dateTrunc path kind =>
    have hkind := (setsOff_inset (.fixed kind.name kind.unquoted_name)).behind
      (s := "DATE_TRUNC(") (by decide)
    have hpath : Unquoted (", " ++ path.render ++ ")") := by
      simp only [unquoted_append, FieldPath.unquoted_render h, and_true]
      decide
    have hcall := hkind.before hpath
    show SetsOff ("DATE_TRUNC('" ++ kind.name ++ "', " ++ path.render ++ ")") _
    simp only [String.append_assoc] at hcall ⊢
    exact hcall
  | dateExtract path part => exact setsOff_of_unquoted (part.unquoted_renderOf h)
  | searchVector fields config =>
    have hfields : ∀ x ∈ fields.map FieldPath.render, Unquoted x := by
      refine List.forall_mem_map.mpr fun path hpath => FieldPath.unquoted_render fun x hx => ?_
      exact h x (List.mem_flatMap.mpr ⟨path, hpath, hx⟩)
    have hconfig : SetsOff ("to_tsvector(" ++ ("'" ++ config ++ "'")) [.raw config] :=
      (setsOff_inset (.raw config)).behind (by decide)
    have hnames : SetsOff (join " || ' ' || " (fields.map FieldPath.render) ++ ")")
        (List.replicate ((fields.map FieldPath.render).length - 1) .blank) :=
      (setsOff_joinBlanks hfields).before (by decide)
    rw [List.length_map] at hnames
    have hcall : SetsOff ("to_tsvector(" ++ ("'" ++ config ++ "'") ++
        (", " ++ (join " || ' ' || " (fields.map FieldPath.render) ++ ")"))) _ :=
      hconfig.between hnames (by decide) (by decide)
    show SetsOff ("to_tsvector('" ++ config ++ "', " ++
      join " || ' ' || " (fields.map FieldPath.render) ++ ")") _
    simp only [String.append_assoc] at hcall ⊢
    exact hcall
  | searchRank vector query mode config =>
    have hcall := ((setsOff_searchCall config query).before (t := ")") (by decide)).behind
      (s := "ts_rank(" ++ vector.name ++ ", " ++ mode.queryFunction) (by
        simp only [unquoted_append, h _ List.mem_cons_self, mode.unquoted_queryFunction, and_true]
        decide)
    show SetsOff ("ts_rank(" ++ vector.name ++ ", " ++ mode.queryFunction ++ "('" ++ config ++
      "', " ++ Literal.quote query ++ "))") _
    simp only [String.append_assoc] at hcall ⊢
    exact hcall

end ProjectionExpr

/-- A printed projection sets the texts of its expression off by quotes. -/
lemma Projection.HasPlainNames.setsOff_render {r : Projection} (h : r.HasPlainNames) :
    SetsOff r.render r.expr.insets := by
  refine ((ProjectionExpr.setsOff_render h.expr h.filter).behind ?_).before ?_
  · exact unquoted_append.mpr ⟨h.name, by decide⟩
  · split
    · decide
    · exact unquoted_append.mpr ⟨by decide, RelationPath.unquoted_render h.scope⟩

/-! ## Compiled filters -/

namespace CompiledFilter

variable {compiled : CompiledFilter}

/-- The texts that stand between quotes in a compiled filter, in order. -/
def insets (compiled : CompiledFilter) : List Inset :=
  compiled.projections.toList.flatMap (·.expr.insets) ++
    compiled.predicate.toList.flatMap Predicate.insets

/-- **A printed filter sets its texts off by quotes** if there are none in its names. -/
theorem setsOff_render (hprojections : ∀ r ∈ compiled.projections.toList, r.HasPlainNames)
    (hpredicate : ∀ p, compiled.predicate = some p → ∀ x ∈ p.names, Unquoted x) :
    SetsOff compiled.render compiled.insets := by
  have hcondition : SetsOff ("WHERE " ++ (compiled.predicate.map Predicate.render).getD "TRUE")
      (compiled.predicate.toList.flatMap Predicate.insets) := by
    cases hp : compiled.predicate with
    | none => exact setsOff_of_unquoted (by decide)
    | some p =>
      rw [Option.toList_some, List.flatMap_singleton]
      exact (p.setsOff_render (hpredicate p hp)).behind (by decide)
  rw [render, insets, String.append_assoc]
  generalize compiled.projections.toList = rs at hprojections ⊢
  -- a line ends in a line break, so it does not matter what the next one begins with
  induction rs with
  | nil => exact hcondition
  | cons r rs ih =>
    obtain ⟨hr, hrs⟩ := List.forall_mem_cons.mp hprojections
    rw [List.map_cons, String.join_cons, List.flatMap_cons, String.append_assoc,
      String.append_assoc, List.append_assoc]
    exact hr.setsOff_render.between (ih hrs) (by decide) (by decide)

end CompiledFilter

/-- **A reader finds the texts of a compiled filter**, each between its own quotes, exactly if those
that are printed as they are have their quotes in pairs.  All others are read as they are meant. -/
theorem Compiler.literals?_render_iff {c : Compiler} {f : Filter} {entity : String}
    {compiled : CompiledFilter} (h : c.compile f entity = .ok compiled)
    (hvalid : c.catalog.IsValid) (hkeyed : c.catalog.IsKeyed) :
    (Text.literals? compiled.render = some (compiled.insets.map fun i => i.written.toList) ↔
      ∀ s, .raw s ∈ compiled.insets → QuotesPaired s.toList) ∧
    ∀ i ∈ compiled.insets, (∀ s, i ≠ .raw s) → Text.replace i.written "''" "'" = i.text := by
  obtain ⟨e, he, -, rfl⟩ := compile_eq_ok_iff.mp h
  have hnames : c.catalog.HasPlainNames := Catalog.hasPlainNames_of_isValid hvalid hkeyed
  have hpredicate : ∀ p, c.predicate? f e (c.projections f e) = some p →
      ∀ x ∈ p.names, Unquoted x := fun p hp => Filter.unquoted_names hp (.of_entity he) hnames
  have hwrites := @CompiledFilter.setsOff_render ⟨c.projections f e, _⟩
    (fun r hr => unquoted_projection hr he hnames) hpredicate
  refine ⟨hwrites.literals?_eq_some_iff.trans ?_, fun i _ hi => Inset.replace_written hi⟩
  rw [List.forall_mem_map]
  exact ⟨fun hall s hs => hall _ hs, fun hraw i hi =>
    Inset.quotesPaired_written fun s hs => hraw s (hs ▸ hi)⟩

namespace Shop

/-- Products with a document. -/
def documented : Entity :=
  ((Entity.withField { name := "Product" } { name := "id", kind := .id }).withField
    { name := "name", kind := .text }).withField { name := "data", kind := .json }

/-- Compilation of filters on such products, every feature switched on. -/
def documentedCompiler : Compiler := { compiler with catalog := Catalog.withEntity {} documented }

lemma documented_isKeyed : documentedCompiler.catalog.IsKeyed :=
  Catalog.isKeyed_empty.withEntity
    ((((Entity.isKeyed_of_eq_nil rfl rfl).withField _).withField _).withField _)

/-- A search of products with a document. -/
def documentSearched : Filter :=
  .node [("search", .search { query := "it's", config := some "simple" }),
    ("data", .field "data" (leaf "eq" (.document (.object [("a", .text "its")]))))]

/-- Products whose document has a single quote in it. -/
def documentQuoted : Filter :=
  .node [("data", .field "data" (leaf "eq" (.document (.object [("a", .text "it's")]))))]

end Shop

/-- The quote in the query is doubled and the document has none, so all texts are found again. -/
theorem Compiler.literals?_render_iff_documents :
    ∃ compiled, Shop.documentedCompiler.compile Shop.documentSearched "Product" = .ok compiled ∧
      Shop.documentedCompiler.catalog.IsValid ∧ Shop.documentedCompiler.catalog.IsKeyed ∧
      compiled.insets = [.raw "simple", .raw "simple", .doubled "it's",
        .raw "\x7b\"a\":\"its\"\x7d"] ∧
      Text.literals? compiled.render = some (compiled.insets.map fun i => i.written.toList) := by
  have hlimits : Shop.documentedCompiler.settings.limits.error? Shop.documentSearched = none := by
    decide +kernel
  have hcompile := Compiler.compile_eq_ok (n := "Product") (e := Shop.documented) rfl hlimits
  obtain ⟨hiff, -⟩ := Compiler.literals?_render_iff hcompile rfl Shop.documented_isKeyed
  refine ⟨_, hcompile, rfl, Shop.documented_isKeyed, rfl, hiff.mpr fun s hs => ?_⟩
  have hs : Inset.raw s ∈ [.raw "simple", .raw "simple", .doubled "it's",
      .raw "\x7b\"a\":\"its\"\x7d"] := hs
  simp only [List.mem_cons, Inset.raw.injEq, reduceCtorEq, false_or, List.not_mem_nil,
    or_false] at hs
  rcases hs with rfl | rfl | rfl
  all_goals exact quotesPaired_of_notMem (by decide)

/-- A single quote in a document ends the text of the document, and the quote at its end begins a
text that nothing ends. -/
theorem Compiler.quote_leaves_document :
    Shop.documentedCompiler.catalog.IsValid ∧ Shop.documentedCompiler.catalog.IsKeyed ∧
      ∃ compiled, Shop.documentedCompiler.compile Shop.documentQuoted "Product" = .ok compiled ∧
        compiled.render = "WHERE data = '\x7b\"a\":\"it's\"\x7d'" ∧
        Text.literals? compiled.render = none := by
  have hlimits : Shop.documentedCompiler.settings.limits.error? Shop.documentQuoted = none := by
    decide +kernel
  have hcompile := Compiler.compile_eq_ok (n := "Product") (e := Shop.documented) rfl hlimits
  exact ⟨rfl, Shop.documented_isKeyed, _, hcompile, by decide +kernel, by decide +kernel⟩

end EntityFilter
