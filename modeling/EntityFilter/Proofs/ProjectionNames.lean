import EntityFilter.Proofs.Plans
import EntityFilter.Proofs.ReadableNames

/-!
# The names of projections

The name of a projection is made of its key, and a projection whose name is taken by another key is
left out; then nothing is constrained where it is asked for.  This happens: a relation `a` with its
aggregates and a relation `a_agg` with its count want the same name
(`Compiler.names_tell_apart_not_always`).

Names are read word by word.  A path comes first, each relation of it with an empty word behind it.
Then comes a field or a relation of the entity that the path leads to, then a word that says what is
computed (`Mark`), then what that takes.  In a catalog all of whose entities are readable
(`Catalog.IsReadable`) none of these can be taken for a shorter one with what may follow it, and
different keys have different names (`ProjectionKey.name_inj`).  So nothing is left out there
(`Compiler.names_tell_apart`).
-/

namespace EntityFilter

open Text (nameWords next? pathWords)

/-! ## What a name says -/

/-- The word behind a relation or a field that says what is computed. -/
inductive Mark where
  | aggregate
  | conditional
  | count
  | subquery
  | trunc
  | extract

namespace Mark

/-- The word of a mark. -/
def word : Mark → String
  | aggregate => "agg"
  | conditional => "cond"
  | count => "count"
  | subquery => "subquery"
  | trunc => "trunc"
  | extract => "extract"

lemma word_injective : Function.Injective word := by
  intro a b h
  cases a <;> cases b <;> simp_all [word]

lemma word_ne_name (m : Mark) : (∀ kind : TruncKind, m.word ≠ kind.name) ∧
    ∀ part : DatePart, m.word ∉ nameWords part.name := by
  constructor
  · intro kind
    cases m <;> cases kind <;> decide
  · intro part
    cases m <;> cases part <;> decide

end Mark

namespace ProjectionKey

/-- Behind a path that leads to an entity, the key is named by a name of the entity, a mark and
further words. -/
inductive Spelled (c : Catalog) (x : Entity) (path : List String) :
    ProjectionKey → String → Mark → List String → Prop where
  | aggregate {relation : String} {r : Relation} {target : Entity} {field : Option String}
      {function : AggregateFunction} : c.resolve? x relation = some (r, target) → r.isToMany →
      (∀ name, field = some name → target.hasField name) →
      Spelled c x path (.aggregate ⟨path ++ [relation]⟩ field function) relation .aggregate
        (aggregateWords field function)
  | conditionalAggregate {relation : String} {r : Relation} {target : Entity}
      {field : Option String} {function : AggregateFunction} {fingerprint : UInt32} :
      c.resolve? x relation = some (r, target) → r.isToMany →
      (∀ name, field = some name → target.hasField name) →
      Spelled c x path (.conditionalAggregate ⟨path ++ [relation]⟩ field function fingerprint)
        relation .conditional
        ("agg" :: (aggregateWords field function ++ [Document.fingerprintText fingerprint]))
  | count {relation : String} {r : Relation} {target : Entity} :
      c.resolve? x relation = some (r, target) → r.isToMany →
      Spelled c x path (.count ⟨path ++ [relation]⟩) relation .count []
  | subquery {relation : String} {r : Relation} {target : Entity} {field : String}
      {orderBy : List OrderKey} : c.resolve? x relation = some (r, target) → r.isToMany →
      target.hasField field → (∀ k ∈ orderBy, target.hasField k.field) →
      Spelled c x path (.subquery ⟨path ++ [relation]⟩ field orderBy) relation .subquery
        ((field :: OrderKey.signsBehind "by" orderBy).flatMap nameWords)
  | dateTrunc {field : String} {f : Field} {kind : TruncKind} : x.field? field = some f →
      f.kind.isTemporal → Spelled c x path (.dateTrunc ⟨path⟩ field kind) field .trunc [kind.name]
  | dateExtract {field : String} {f : Field} {part : DatePart} : x.field? field = some f →
      f.kind.isTemporal →
      Spelled c x path (.dateExtract ⟨path⟩ field part) field .extract (nameWords part.name)

variable {c : Catalog} {x : Entity} {path : List String} {key key' : ProjectionKey}
  {name name' : String} {m m' : Mark} {rest rest' : List String}

lemma nameWords_under (path : List String) (name : String) :
    nameWords (under ⟨path⟩ name) = pathWords path ++ nameWords name := by
  unfold under
  split
  · next hempty =>
    obtain rfl : path = [] := List.isEmpty_iff.mp hempty
    rfl
  · next hne =>
    have hseparator : "__" = "_" ++ "" ++ "_" := rfl
    have hempty : nameWords "" = [""] := by decide
    have hpath : path ≠ [] := fun h => hne (by simp [h, RelationPath.isEmpty])
    rw [Text.nameWords_append_append hseparator, hempty, ← List.append_assoc,
      RelationPath.lookupName, Text.nameWords_join_path hpath]

lemma nameWords_lookupName (path : List String) (relation : String) :
    nameWords (RelationPath.lookupName ⟨path ++ [relation]⟩) =
      pathWords path ++ nameWords relation := by
  have hne : path ++ [relation] ≠ [] := by simp
  have hjoin := Text.nameWords_join_path hne
  have hlast : pathWords (path ++ [relation]) = pathWords path ++ nameWords relation ++ [""] := by
    simp [pathWords]
  rw [hlast] at hjoin
  exact List.append_cancel_right hjoin

/-- **A key that is spelled has the words of the path, the name, the mark and the rest.** -/
theorem Spelled.nameWords_name (h : Spelled c x path key name m rest) :
    nameWords key.name = pathWords path ++ (nameWords name ++ m.word :: rest) := by
  cases h with
  | aggregate =>
    have hseparator : "_agg_" = "_" ++ "agg" ++ "_" := rfl
    have hmark : nameWords "agg" = ["agg"] := by decide
    rw [ProjectionKey.name, Text.nameWords_append_append hseparator, nameWords_lookupName, hmark,
      nameWords_aggregateName, List.append_assoc]
    rfl
  | @conditionalAggregate _ _ _ field function fingerprint =>
    have hseparator : "_cond_agg_" = "_" ++ "cond_agg" ++ "_" := rfl
    have hmark : nameWords "cond_agg" = ["cond", "agg"] := by decide
    rw [ProjectionKey.name, Text.nameWords_append,
      Text.nameWords_append_append hseparator, nameWords_lookupName, hmark,
      nameWords_aggregateName, Document.nameWords_fingerprintText, List.append_assoc,
      List.append_assoc]
    simp [Mark.word]
  | count =>
    have hending : "_count" = "_" ++ "count" := rfl
    have hmark : nameWords "count" = ["count"] := by decide
    rw [ProjectionKey.name, Text.nameWords_append_ending hending, nameWords_lookupName, hmark,
      List.append_assoc]
    rfl
  | subquery =>
    have hseparator : "_subquery_" = "_" ++ "subquery" ++ "_" := rfl
    have hby : "_by_" = "_" ++ "by" ++ "_" := rfl
    have hmark : nameWords "subquery" = ["subquery"] := by decide
    rw [ProjectionKey.name, Text.nameWords_append_section hby fun h =>
        OrderKey.nameWords_fragments (List.isEmpty_eq_false_iff.mp h),
      Text.nameWords_append_append hseparator, nameWords_lookupName, hmark]
    simp [Mark.word, OrderKey.signsBehind]
  | @dateTrunc field _ kind =>
    have hseparator : "_trunc_" = "_" ++ "trunc" ++ "_" := rfl
    have hmark : nameWords "trunc" = ["trunc"] := by decide
    have hkind : nameWords kind.name = [kind.name] := by cases kind <;> decide
    rw [ProjectionKey.name, nameWords_under, Text.nameWords_append_append hseparator, hmark, hkind]
    rfl
  | dateExtract =>
    have hseparator : "_extract_" = "_" ++ "extract" ++ "_" := rfl
    have hmark : nameWords "extract" = ["extract"] := by decide
    rw [ProjectionKey.name, nameWords_under, Text.nameWords_append_append hseparator, hmark]
    rfl

/-- What the key names is there. -/
lemma Spelled.mem_headNames (h : Spelled c x path key name m rest) : name ∈ x.headNames := by
  cases h with
  | aggregate hr hmany | conditionalAggregate hr hmany | count hr hmany | subquery hr hmany =>
    exact List.mem_append_left _
      (Entity.mem_manyNames (Catalog.resolve?_eq_some.mp hr).1 hmany)
  | dateTrunc hf htemporal | dateExtract hf htemporal =>
    exact List.mem_append_right _ (Entity.mem_temporalNames hf htemporal)

/-- Either no name looks like this one with the mark behind it, or no mark comes after this one. -/
lemma Spelled.apart (h : Spelled c x path key name m rest) :
    (name ∈ x.manyNames ∧ m.word ∈ ["agg", "cond", "subquery"]) ∨ ∀ m' : Mark, m'.word ∉ rest := by
  cases h with
  | aggregate hr hmany | conditionalAggregate hr hmany | subquery hr hmany =>
    exact .inl ⟨Entity.mem_manyNames (Catalog.resolve?_eq_some.mp hr).1 hmany, by decide⟩
  | count => exact .inr fun m' => List.not_mem_nil
  | dateTrunc =>
    refine .inr fun m' hmem => ?_
    exact m'.word_ne_name.1 _ (List.mem_singleton.mp hmem)
  | dateExtract => exact .inr fun m' => m'.word_ne_name.2 _

/-- A name with its mark is not the beginning of another one. -/
lemma Spelled.not_next (hx : x.IsReadable) (h : Spelled c x path key name m rest)
    (h' : Spelled c x path key' name' m' rest')
    (heq : nameWords name ++ m.word :: rest = nameWords name' ++ m'.word :: rest') {w : String}
    (hnext : next? (nameWords name) (nameWords name') = some w)
    (hhead : (m.word :: rest).head? = some w) : False := by
  obtain rfl : m.word = w := Option.some.inj hhead
  rcases h.apart with ⟨hmany, hopen⟩ | hclosed
  · exact hx.apart name hmany name' h'.mem_headNames m.word hnext hopen
  · obtain ⟨between, hbetween⟩ := Text.next?_eq_some.mp hnext
    rw [hbetween, List.append_assoc] at heq
    have hrest := (List.cons.inj (List.append_cancel_left heq)).2
    exact hclosed m' (by simp [hrest])

/-- The name, the mark and the rest are read off the words. -/
lemma Spelled.parts_eq (hx : x.IsReadable) (h : Spelled c x path key name m rest)
    (h' : Spelled c x path key' name' m' rest')
    (heq : nameWords name ++ m.word :: rest = nameWords name' ++ m'.word :: rest') :
    name = name' ∧ m = m' ∧ rest = rest' := by
  rcases Text.append_eq_cases heq with ⟨hname, hrest⟩ | ⟨w, hw, hhead⟩ | ⟨w, hw, hhead⟩
  · obtain ⟨hmark, hrest⟩ := List.cons.inj hrest
    exact ⟨Text.nameWords_injective hname, Mark.word_injective hmark, hrest⟩
  · exact absurd hhead (h.not_next hx h' heq hw)
  · exact absurd hhead (h'.not_next hx h heq.symm hw)

/-- Nothing that stands behind the path is empty. -/
lemma Spelled.empty_notMem (hc : c.IsReadable) (hx : x ∈ c.entities.values)
    (h : Spelled c x path key name m rest) : "" ∉ nameWords name ++ m.word :: rest := by
  have hname :=
    (hc x hx).words name (Entity.mem_names_of_mem_headNames h.mem_headNames)
  have hmark : "" ≠ m.word := by cases m <;> decide
  have hfunction : ∀ function : AggregateFunction, "" ∉ nameWords function.name := by
    intro function
    rw [AggregateFunction.nameWords_name]
    cases function <;> decide
  have hwords : ∀ {field : Option String} {function : AggregateFunction} {target : Entity},
      target ∈ c.entities.values → (∀ name, field = some name → target.hasField name) →
      "" ∉ aggregateWords field function := by
    intro field function target htarget hfield
    rw [aggregateWords, List.mem_append, not_or]
    refine ⟨?_, hfunction function⟩
    cases field with
    | none => exact List.not_mem_nil
    | some name =>
      exact (hc target htarget).words name (Entity.mem_names_of_hasField (hfield name rfl))
  have htarget : ∀ {relation r target}, c.resolve? x relation = some (r, target) →
      target ∈ c.entities.values := fun hr =>
    Catalog.mem_values_of_entity? (Catalog.resolve?_eq_some.mp hr).2
  have hrest : "" ∉ rest := by
    cases h with
    | aggregate hr _ hfield => exact hwords (htarget hr) hfield
    | conditionalAggregate hr _ hfield =>
      simp only [List.mem_cons, List.mem_append, List.not_mem_nil, or_false, not_or]
      exact ⟨by decide, hwords (htarget hr) hfield, (Document.fingerprintText_ne_empty _).symm⟩
    | count => exact List.not_mem_nil
    | subquery hr _ hfield horder =>
      exact (hc _ (htarget hr)).empty_notMem_lookUp hfield horder
    | @dateTrunc _ _ kind => cases kind <;> decide
    | @dateExtract _ _ part => cases part <;> decide
  simp only [List.mem_append, List.mem_cons, not_or]
  exact ⟨hname, hmark, hrest⟩

/-- The name, the mark and the rest say all of the key. -/
lemma Spelled.key_eq (hc : c.IsReadable) (h : Spelled c x path key name m rest)
    (h' : Spelled c x path key' name m rest') (hrest : rest = rest') : key = key' := by
  cases h with
  | aggregate =>
    cases h' with
    | aggregate =>
      obtain ⟨rfl, rfl⟩ := aggregateWords_inj hrest
      rfl
  | conditionalAggregate =>
    cases h' with
    | conditionalAggregate =>
      obtain ⟨hwords, hfingerprint⟩ := List.append_inj' (List.cons.inj hrest).2 rfl
      obtain ⟨rfl, rfl⟩ := aggregateWords_inj hwords
      rw [Document.fingerprintText_injective (List.singleton_inj.mp hfingerprint)]
  | count =>
    cases h' with
    | count => rfl
  | subquery hr _ hfield horder =>
    cases h' with
    | subquery hr' _ hfield' horder' =>
      obtain ⟨rfl, rfl⟩ := Prod.mk.inj (Option.some.inj (hr.symm.trans hr'))
      have htarget := hc _ (Catalog.mem_values_of_entity? (Catalog.resolve?_eq_some.mp hr).2)
      obtain ⟨rfl, rfl⟩ := htarget.lookUp_inj hfield hfield' horder horder' hrest
      rfl
  | dateTrunc =>
    cases h' with
    | dateTrunc => rw [TruncKind.name_injective (List.singleton_inj.mp hrest)]
  | dateExtract =>
    cases h' with
    | dateExtract => rw [DatePart.name_injective (Text.nameWords_injective hrest)]

/-! ### Ranks and searches -/

lemma nameWords_window (function : WindowFunction) (spec : WindowSpec) :
    nameWords (ProjectionKey.name (.window .root function spec)) =
      "window" :: (nameWords function.name ++ (spec.opening ++ spec.signs.flatMap nameWords)) := by
  have hstart : "window_" ++ function.name = "window" ++ "_" ++ function.name := rfl
  have hwindow : nameWords "window" = ["window"] := by decide
  show nameWords ("window_" ++ function.name ++ spec.suffix) = _
  rw [WindowSpec.nameWords_append_suffix, hstart, Text.nameWords_append, hwindow]
  rfl

/-- No name with a mark behind it looks like a rank. -/
lemma Spelled.ne_window (hx : x.IsReadable) (h : Spelled c x path key name m rest)
    (function : WindowFunction) (ws : List String) :
    nameWords name ++ m.word :: rest ≠ "window" :: (nameWords function.name ++ ws) := by
  intro heq
  have hfirst : ∀ w, (nameWords function.name ++ ws).head? = some w →
      w ∈ ["rank", "dense", "row", "percent"] := by
    intro w hw
    rw [WindowFunction.nameWords_name] at hw
    cases function <;> simp_all
  have hmark : m.word ∉ ["rank", "dense", "row", "percent"] := by cases m <;> decide
  have heq : nameWords name ++ m.word :: rest = ["window"] ++ (nameWords function.name ++ ws) := heq
  rcases Text.append_eq_cases heq with ⟨-, hrest⟩ | ⟨w, hw, -⟩ | ⟨w, hw, hhead⟩
  · exact hmark (hfirst _ (by rw [← hrest]; rfl))
  · obtain ⟨between, hbetween⟩ := Text.next?_eq_some.mp hw
    have hnil : nameWords name = [] := by
      rcases hname : nameWords name with _ | ⟨w', ws'⟩
      · rfl
      · simp [hname] at hbetween
    exact Text.nameWords_ne_nil name hnil
  · exact hx.window name h.mem_headNames w hw (hfirst w hhead)

/-- No name with a mark behind it looks like a search. -/
lemma append_mark_ne_search (name : String) (m : Mark) (rest : List String) {last : String}
    (hlast : last ∈ ["vector", "rank"]) : nameWords name ++ m.word :: rest ≠ ["search", last] := by
  intro heq
  have hmark : m.word ∉ ["vector", "rank"] := by cases m <;> decide
  rcases hname : nameWords name with _ | ⟨w, ws⟩
  · exact Text.nameWords_ne_nil name hname
  · rw [hname, List.cons_append] at heq
    have hmem : m.word ∈ [last] := by
      rw [← (List.cons.inj heq).2]
      simp
    rw [List.mem_singleton.mp hmem] at hmark
    exact hmark hlast

/-! ### Keys behind a path -/

/-- The words by which a key is named behind a path that leads to an entity. -/
inductive Behind (c : Catalog) (x : Entity) :
    List String → ProjectionKey → List String → Prop where
  | spelled {path : List String} {key : ProjectionKey} {name : String} {m : Mark}
      {rest : List String} : Spelled c x path key name m rest →
      Behind c x path key (nameWords name ++ m.word :: rest)
  | window {function : WindowFunction} {spec : WindowSpec} :
      (∀ name ∈ spec.partitionBy, x.hasField name) → (∀ k ∈ spec.orderBy, x.hasField k.field) →
      Behind c x [] (.window .root function spec)
        ("window" :: (nameWords function.name ++ (spec.opening ++ spec.signs.flatMap nameWords)))
  | vector {path : List String} {fields : List String} {config : String} :
      Behind c x path (.searchVector ⟨path⟩ fields config) ["search", "vector"]
  | rank {path : List String} {query : String} {mode : SearchMode} :
      Behind c x path (.searchRank ⟨path⟩ query mode) ["search", "rank"]

/-- Whether a key is that of a search. -/
def isSearch : ProjectionKey → Bool
  | searchVector _ _ _ | searchRank _ _ _ => true
  | _ => false

variable {chunk chunk' : List String}

lemma Behind.nameWords_name (h : Behind c x path key chunk) :
    nameWords key.name = pathWords path ++ chunk := by
  have hvector : nameWords "search_vector" = ["search", "vector"] := by decide
  have hrank : nameWords "search_rank" = ["search", "rank"] := by decide
  cases h with
  | spelled h => exact h.nameWords_name
  | window => exact nameWords_window _ _
  | vector => rw [ProjectionKey.name, nameWords_under, hvector]
  | rank => rw [ProjectionKey.name, nameWords_under, hrank]

lemma Behind.empty_notMem (hc : c.IsReadable) (hx : x ∈ c.entities.values)
    (h : Behind c x path key chunk) : "" ∉ chunk := by
  cases h with
  | spelled h => exact h.empty_notMem hc hx
  | @window function spec hpartition horder =>
    have hfunction : "" ∉ nameWords function.name := by
      rw [WindowFunction.nameWords_name]
      cases function <;> decide
    have hopening : "" ∉ spec.opening := by
      unfold WindowSpec.opening
      split <;> decide
    simp only [List.mem_cons, List.mem_append, List.mem_flatMap, not_or, not_exists, not_and]
    refine ⟨by decide, hfunction, hopening, fun sign hsign => ?_⟩
    exact (hc x hx).empty_notMem_of_mem_signs
      (WindowSpec.mem_signs_of_mem_signs hpartition horder sign hsign)
  | vector | rank => decide

/-- The words behind a path say all of the key, unless it is that of a search. -/
lemma Behind.key_eq (hc : c.IsReadable) (hx : x ∈ c.entities.values)
    (h : Behind c x path key chunk) (h' : Behind c x path key' chunk') (hsearch : ¬key.isSearch)
    (heq : chunk = chunk') : key = key' := by
  cases h with
  | spelled h =>
    cases h' with
    | spelled h' =>
      obtain ⟨rfl, rfl, hrest⟩ := h.parts_eq (hc x hx) h' heq
      exact h.key_eq hc h' hrest
    | window => exact absurd heq (h.ne_window (hc x hx) _ _)
    | vector | rank => exact absurd heq (append_mark_ne_search _ _ _ (by decide))
  | window hpartition horder =>
    cases h' with
    | spelled h' => exact absurd heq.symm (h'.ne_window (hc x hx) _ _)
    | window hpartition' horder' =>
      obtain ⟨rfl, rfl⟩ := (hc x hx).window_inj hpartition horder hpartition' horder'
        (List.cons.inj heq).2
      rfl
    | vector | rank => exact absurd (List.cons.inj heq).1 (by decide)
  | vector | rank => exact absurd rfl hsearch

/-- The names in a key are those of fields and relations, from an entity onwards. -/
def NamedIn (c : Catalog) (e : Entity) (key : ProjectionKey) : Prop :=
  ∃ path x chunk, c.along? e path = some x ∧ Behind c x path key chunk

/-- **Different keys have different names** where names can be read, searches apart; and no search
has the name of another key. -/
theorem name_inj {e : Entity} (hc : c.IsReadable) (he : e ∈ c.entities.values)
    (h : key.NamedIn c e) (h' : key'.NamedIn c e) (hsearch : ¬key.isSearch)
    (hname : key.name = key'.name) : key = key' := by
  obtain ⟨path, x, chunk, hpath, h⟩ := h
  obtain ⟨path', x', chunk', hpath', h'⟩ := h'
  obtain ⟨hx, hreadable⟩ := hc.along he hpath
  obtain ⟨hx', hreadable'⟩ := hc.along he hpath'
  have hwords := congrArg nameWords hname
  rw [h.nameWords_name, h'.nameWords_name] at hwords
  obtain ⟨rfl, hchunk⟩ := Text.pathWords_append_inj hreadable hreadable'
    (h.empty_notMem hc hx) (h'.empty_notMem hc hx') hwords
  obtain rfl := Option.some.inj (hpath.symm.trans hpath')
  exact h.key_eq hc hx h' hsearch hchunk

end ProjectionKey

/-! ## Planned projections -/

lemma Scope.Located.along {c : Catalog} {e : Entity} {s : Scope} (h : s.Located c e) :
    c.along? e s.path.segments = some s.entity := by
  obtain ⟨base, hrows, hjoined⟩ := h
  show c.along? e (s.rows.segments ++ s.joined.segments) = some s.entity
  rw [Catalog.along?_append, hrows]
  exact hjoined

variable {c : Compiler} {f : Filter} {e : Entity}

/-- The names in the key of a request are those of fields and relations. -/
lemma Visit.namedIn_of_plans {set : ProjectionSet} {v : Visit} {key : ProjectionKey}
    {expr : ProjectionExpr} (hv : v.scope.Located c.catalog e) (h : v.Plans c set key expr) :
    key.NamedIn c.catalog e := by
  have halong := hv.along
  have hfields : ∀ {target : Entity} {field : Option String},
      (∀ name, field = some name → ∃ f, target.field? name = some f) →
      ∀ name, field = some name → target.hasField name := by
    intro target field hfield name hname
    obtain ⟨f, hf⟩ := hfield name hname
    exact Entity.hasField_of_field? hf
  cases h with
  | aggregate _ htarget hfield =>
    obtain ⟨-, r, hr, hmany⟩ := Compiler.toMany?_eq_some.mp htarget
    exact ⟨_, _, _, halong, .spelled (.aggregate hr hmany (hfields hfield))⟩
  | conditionalAggregate _ _ _ htarget hfield =>
    obtain ⟨-, r, hr, hmany⟩ := Compiler.toMany?_eq_some.mp htarget
    exact ⟨_, _, _, halong, .spelled (.conditionalAggregate hr hmany (hfields hfield))⟩
  | count _ _ htarget =>
    obtain ⟨-, r, hr, hmany⟩ := Compiler.toMany?_eq_some.mp htarget
    exact ⟨_, _, _, halong, .spelled (.count hr hmany)⟩
  | window _ _ hpath hpartition horder =>
    rw [hpath] at halong ⊢
    exact ⟨_, _, _, halong, .window hpartition horder⟩
  | subquery _ _ _ htarget hfield horder =>
    obtain ⟨-, r, hr, hmany⟩ := Compiler.toMany?_eq_some.mp htarget
    obtain ⟨f, hf⟩ := hfield
    exact ⟨_, _, _, halong, .spelled (.subquery hr hmany (Entity.hasField_of_field? hf) horder)⟩
  | dateTrunc _ _ hf htemporal => exact ⟨_, _, _, halong, .spelled (.dateTrunc hf htemporal)⟩
  | dateExtract _ _ hf htemporal => exact ⟨_, _, _, halong, .spelled (.dateExtract hf htemporal)⟩
  | searchVector => exact ⟨_, _, _, halong, .vector⟩
  | searchRank => exact ⟨_, _, _, halong, .rank⟩

lemma Compiler.namedIn_of_mem_requests {r : Projection} (hr : r ∈ c.requests f e) :
    r.key.NamedIn c.catalog e := by
  obtain ⟨v, hv, hrv⟩ := List.mem_flatMap.mp hr
  have hlocated := Filter.located_of_mem_visits (Scope.located_refl c.catalog e) hv
  exact Visit.namedIn_of_plans hlocated (Visit.plans_of_mem_requests hrv)

/-- **A key is found if the first request under its name has this key**, and only then. -/
theorem ProjectionSet.isSome_lookup?_ofRequests {requests : List Projection}
    {key : ProjectionKey} :
    ((ofRequests requests).lookup? key).isSome ↔
      ∃ q, requests.find? (·.name = key.name) = some q ∧ q.key = key := by
  rw [← get?_ofRequests]
  constructor
  · intro h
    obtain ⟨handle, hhandle⟩ := Option.isSome_iff_exists.mp h
    obtain ⟨-, -, q, hq, hkey⟩ := lookup?_eq_some.mp hhandle
    exact ⟨q, hq, hkey⟩
  · rintro ⟨q, hq, hkey⟩
    obtain ⟨i, hi⟩ := Option.isSome_iff_exists.mp (Entries.isSome_indexOf? hq)
    have hfound : (ofRequests requests).lookup? key = some ⟨i, key.name⟩ :=
      lookup?_eq_some.mpr ⟨rfl, hi, q, hq, hkey⟩
    rw [hfound]
    rfl

/-- **When names tell projections apart.**  In any catalog, a key is found in the end exactly if the
first request under its name has this key.  Where the names of the catalog can be read, this is true
of every request, searches apart: no other request has its name, it is never turned away for another
key, and its key is found. -/
theorem Compiler.names_tell_apart (c : Compiler) (f : Filter) (e : Entity) :
    (∀ key, ((c.projections f e).lookup? key).isSome ↔
      ∃ q, (c.requests f e).find? (·.name = key.name) = some q ∧ q.key = key) ∧
    (c.catalog.IsReadable → e ∈ c.catalog.entities.values →
      ∀ r ∈ c.requests f e, ¬r.key.isSearch →
        (∀ q ∈ c.requests f e, q.key ≠ r.key → q.name ≠ r.name) ∧
        (∀ before after, c.requests f e = before ++ r :: after → ∀ q,
          (ProjectionSet.ofRequests before).byName.get? r.name = some q → q.key = r.key) ∧
        ∃ handle p, (c.projections f e).lookup? r.key = some handle ∧
          (c.projections f e).get? handle = some p ∧ p.key = r.key) := by
  have hfound : ∀ key, ((c.projections f e).lookup? key).isSome ↔
      ∃ q, (c.requests f e).find? (·.name = key.name) = some q ∧ q.key = key := by
    intro key
    rw [projections_eq_requests]
    exact ProjectionSet.isSome_lookup?_ofRequests
  refine ⟨hfound, fun hc he r hr hsearch => ?_⟩
  have hsame : ∀ q ∈ c.requests f e, q.name = r.name → q.key = r.key := fun q hq hname =>
    (ProjectionKey.name_inj hc he (namedIn_of_mem_requests hr) (namedIn_of_mem_requests hq) hsearch
      hname.symm).symm
  refine ⟨fun q hq hne hname => hne (hsame q hq hname), ?_, ?_⟩
  · intro before after hsplit q hq
    rw [ProjectionSet.get?_ofRequests] at hq
    refine hsame q ?_ (by simpa using List.find?_some hq)
    rw [hsplit]
    exact List.mem_append_left _ (List.mem_of_find?_eq_some hq)
  · have hfirst : ((c.requests f e).find? (·.name = r.name)).isSome :=
      List.find?_isSome.mpr ⟨r, hr, by simp⟩
    obtain ⟨q, hq⟩ := Option.isSome_iff_exists.mp hfirst
    have hkey := hsame q (List.mem_of_find?_eq_some hq) (by simpa using List.find?_some hq)
    obtain ⟨handle, hhandle⟩ := Option.isSome_iff_exists.mp ((hfound r.key).mpr ⟨q, hq, hkey⟩)
    obtain ⟨p, hp, hpkey, -⟩ := ProjectionSet.get?_of_lookup? hhandle
    exact ⟨handle, p, hhandle, hp, hpkey⟩

/-- A product has reviews, and its brand has one at least. -/
def Shop.everReviewed : Filter :=
  .node [("reviews_agg", .aggregate ⟨"reviews", none, [(.count, leaf "gte" (.int 1))]⟩ none),
    ("brand_rel", .related "brand" (.node [("reviews_count",
      .count "reviews" (leaf "gte" (.int 1)))]))]

theorem Compiler.names_tell_apart_shop :
    ∃ q r, Shop.compiler.requests Shop.everReviewed Shop.product = [q, r] ∧
      q.name = "reviews_agg_count" ∧ r.name = "brand__reviews_count" ∧ q.name ≠ r.name ∧
      ∃ handle p, (Shop.compiler.projections Shop.everReviewed Shop.product).lookup? r.key =
        some handle ∧
        (Shop.compiler.projections Shop.everReviewed Shop.product).get? handle = some p ∧
        p.key = r.key := by
  obtain ⟨-, happart⟩ := names_tell_apart Shop.compiler Shop.everReviewed Shop.product
  have hreadable : Shop.compiler.catalog.IsReadable := by decide
  have hrequests : ∃ q r, Shop.compiler.requests Shop.everReviewed Shop.product = [q, r] ∧
      q.name = "reviews_agg_count" ∧ r.name = "brand__reviews_count" ∧ ¬r.key.isSearch ∧
      q.key ≠ r.key := ⟨_, _, rfl, rfl, rfl, by decide, by decide⟩
  obtain ⟨q, r, hqr, hq, hr, hsearch, hne⟩ := hrequests
  obtain ⟨hnames, -, hfound⟩ := happart hreadable List.mem_cons_self r (by simp [hqr]) hsearch
  exact ⟨q, r, hqr, hq, hr, hnames q (by simp [hqr]) hne, hfound⟩

namespace Twins

/-- A product has items in two relations, and the name of one looks like the aggregates of the
other. -/
def product : Entity :=
  ((Entity.withField { name := "Product" } { name := "id", kind := .id }).withRelation
    { name := "a", cardinality := .many, target := "Item" }).withRelation
      { name := "a_agg", cardinality := .many, target := "Item" }

def item : Entity := Entity.withField { name := "Item" } { name := "id", kind := .id }

def compiler : Compiler :=
  { catalog := (Catalog.withEntity {} product).withEntity item
    settings := { features := .all }
    now := ⟨0, 0⟩ }

/-- There is an item in the one relation. -/
def aggregated : String × FilterEntry :=
  ("a_agg", .aggregate ⟨"a", none, [(.count, Shop.leaf "gte" (.int 1))]⟩ none)

/-- There is an item in the other relation. -/
def counted : String × FilterEntry := ("a_agg_count", .count "a_agg" (Shop.leaf "gte" (.int 1)))

end Twins

/-- The aggregate of `a` and the count of `a_agg` are both called `a_agg_count`.  The count comes
second and is left out, and so is the constraint on it. -/
theorem Compiler.names_tell_apart_not_always :
    Twins.compiler.catalog.IsValid ∧
    ∃ q r, Twins.compiler.requests (.node [Twins.aggregated, Twins.counted]) Twins.product =
        [q, r] ∧
      ¬q.key.isSearch ∧ ¬r.key.isSearch ∧ q.key ≠ r.key ∧ q.name = r.name ∧
      (Twins.compiler.projections (.node [Twins.aggregated, Twins.counted])
        Twins.product).lookup? r.key = none ∧
      ∀ set, set = Twins.compiler.projections (.node [Twins.aggregated, Twins.counted])
        Twins.product →
        Twins.compiler.predicate? (.node [Twins.aggregated, Twins.counted]) Twins.product set =
          Twins.compiler.predicate? (.node [Twins.aggregated]) Twins.product set := by
  refine ⟨rfl, _, _, rfl, by decide, by decide, by decide, rfl, rfl, ?_⟩
  rintro set rfl
  rfl

end EntityFilter
