import EntityFilter.Proofs.SchemaChains

/-!
# Features

A feature is what a filter may ask for beyond fields and relations, if the settings allow it.  The
schema decides by depth and settings alone whether a filter offers one
(`FilterLanguage.Offered.granted`).  The compiler also looks at how the filter has been entered:
only the rows of the filtered entity are ranked, and only they, and rows joined to them, have their
dates taken apart and their texts searched (`Feature.Suits`).  How a filter has been entered can be
read off the chain of keys in front of it (`Feature.suits_iff_fits`).
-/

namespace EntityFilter

/-- What a filter may ask for beyond fields and relations, if the settings allow it. -/
inductive Feature where
  /-- Constraints on ranks. -/
  | window
  /-- Constraints on looked-up values. -/
  | subquery
  /-- Existence tests. -/
  | existence
  /-- Full-text search. -/
  | search
  /-- Constraints on a truncated date. -/
  | trunc (field : String)
  /-- Constraints on a part of a date. -/
  | extract (field : String)
  /-- Aggregates over the related rows that satisfy a condition. -/
  | conditionalAggregate (relation : String)

namespace Feature

/-- The key of a feature. -/
def key : Feature → FilterKey
  | window => .window
  | subquery => .subquery
  | existence => .existence
  | search => .search
  | trunc field => .trunc field
  | extract field => .extract field
  | conditionalAggregate relation => .conditionalAggregate relation

/-- Whether the field or the relation that a feature is about has a name. -/
def IsNamed : Feature → Prop
  | trunc name | extract name | conditionalAggregate name => name ≠ ""
  | _ => True

/-- Whether a type is that of a feature in a schema. -/
def IsTypedBy (type : InputType) : Feature → Prop
  | window => type = .list (.object InputObject.window.name)
  | subquery => type = .list (.object InputObject.subquery.name)
  | existence => type = .list (.object InputObject.existence.name)
  | search => type = .object InputObject.search.name
  | trunc _ => ∃ kind : FieldKind, type = .object kind.truncName
  | extract _ => type = .object InputObject.extract.name
  | conditionalAggregate _ =>
    ∃ filter, type = .object (InputObject.conditionalAggregate filter).name

/-- Whether an entity has what a feature works on. -/
def HasSubject (c : Catalog) (e : Entity) : Feature → Prop
  | search => e.fullTextFields ≠ []
  | subquery | existence => ∃ r ∈ e.relations.values, r.isToMany ∧
      ∃ target, c.entity? r.target = some target ∧ target.fields.values ≠ []
  | _ => True

/-- Whether a feature is compiled in a scope.  Only the rows of the filtered entity are ranked, and
only they, and rows joined to them, are searched and have their dates taken apart. -/
def Suits (s : Scope) : Feature → Prop
  | window => s.depth = 0
  | search | trunc _ | extract _ => s.isBaseRow
  | subquery | existence | conditionalAggregate _ => True

/-- Whether a feature is compiled behind a chain of keys. -/
def Fits (links : List Link) : Feature → Prop
  | window => links = []
  | search | trunc _ | extract _ => ∀ l ∈ links, l.quantifier = none
  | subquery | existence | conditionalAggregate _ => True

/-- The levels below the filter that asks for a feature: a condition is one more. -/
def levels : Feature → Nat
  | conditionalAggregate _ => 1
  | _ => 0

variable {f : Feature}

lemma ofName_written (h : f.IsNamed) : FilterKey.ofName f.key.written = f.key := by
  cases f with
  | trunc name => exact FilterKey.ofName_trunc h
  | extract name => exact FilterKey.ofName_extract h
  | conditionalAggregate name => exact FilterKey.ofName_conditionalAggregate h
  | _ => decide

lemma key_ne (f : Feature) (other : String) : f.key ≠ .field other ∧ f.key ≠ .aggregate other := by
  cases f <;> simp [key]

/-- The object of a feature is neither that of operators nor that of aggregates. -/
lemma IsTypedBy.object_ne {name : String} (h : f.IsTypedBy (.object name)) :
    name ∉ FieldKind.operatorsNames ∧ name ≠ InputObject.aggregate.name := by
  cases f with
  | window | subquery | existence => cases h
  | search | extract =>
    obtain rfl := InputType.object.inj h
    decide
  | trunc =>
    obtain ⟨kind, hkind⟩ := h
    obtain rfl := InputType.object.inj hkind
    refine ⟨kind.truncName_notMem_operatorsNames, ?_⟩
    unfold FieldKind.truncName
    split <;> decide
  | conditionalAggregate =>
    obtain ⟨filter, hfilter⟩ := h
    obtain rfl := InputType.object.inj hfilter
    exact ⟨FieldKind.conditionalAggregate_notMem_operatorsNames filter,
      FieldKind.conditionalAggregate_ne (by decide) filter⟩

/-- What suits a chain suits the scope that it leads to. -/
lemma suits_iff_fits {c : Compiler} {e : Entity} {s : Scope} {links : List Link}
    (hs : c.through? { entity := e } links = some s) : f.Suits s ↔ f.Fits links := by
  have hbase := Compiler.isBaseRow_through? hs
  have hdepth := Compiler.depth_through? hs
  have hroot : ({ entity := e } : Scope).isBaseRow := rfl
  cases f with
  | window =>
    rw [Suits, Fits, hdepth]
    show 0 + links.length = 0 ↔ _
    rw [Nat.zero_add, List.length_eq_zero_iff]
  | search | trunc | extract =>
    rw [Suits, Fits, hbase]
    exact and_iff_right hroot
  | subquery | existence | conditionalAggregate => exact Iff.rfl

/-- What the compiler finds where a feature is offered. -/
inductive Granted (c : Compiler) (s : Scope) : Feature → Prop where
  | window : c.settings.features.window → Granted c s .window
  | subquery : c.settings.features.subquery → c.canFollow s → Granted c s .subquery
  | existence : c.settings.features.existence → c.canFollow s → Granted c s .existence
  | search : c.settings.features.fullText → Granted c s .search
  | trunc {name : String} {f : Field} : c.settings.features.dateTrunc →
      s.entity.field? name = some f → f.kind.isTemporal → Granted c s (.trunc name)
  | extract {name : String} {f : Field} : c.settings.features.dateExtract →
      s.entity.field? name = some f → f.kind.isTemporal → Granted c s (.extract name)
  | conditionalAggregate {name : String} {target : Entity} :
      c.settings.features.conditionalAggregation → c.canNest s →
      c.toMany? s name = some target → Granted c s (.conditionalAggregate name)

end Feature

/-- Whether a key is that of a feature. -/
def FilterKey.isFeature : FilterKey → Bool
  | window | subquery | existence | search | trunc _ | extract _ | conditionalAggregate _ => true
  | _ => false

lemma Feature.isFeature_key (f : Feature) : f.key.isFeature := by
  cases f <;> rfl

/-- **A feature is offered where depth and settings grant it.** -/
theorem FilterLanguage.Offered.granted {c : Compiler} {s : Scope} {scope : String} {o : Offer}
    {feature : Feature} (h : (c.language scope).Offered s.entity s.depth o)
    (hkeyed : s.entity.IsKeyed) (hnamed : feature.IsNamed)
    (hkey : o.field.name = feature.key.written) (htype : feature.IsTypedBy o.field.type) :
    feature.Granted c s := by
  have hread : FilterKey.ofName o.field.name = feature.key := by
    rw [hkey, Feature.ofName_written hnamed]
  have hfeature : (FilterKey.ofName o.field.name).isFeature := by
    rw [hread]
    exact feature.isFeature_key
  have hsame {key : FilterKey} (word : String) (hname : o.field.name = word)
      (hword : FilterKey.ofName word = key) : key = feature.key :=
    hword.symm.trans ((congrArg _ hname.symm).trans hread)
  cases h with
  | window hon =>
    have hthis : FilterKey.window = feature.key := hsame "_window" rfl (by decide)
    cases feature <;> cases hthis
    exact .window hon
  | subquery hdepth hon =>
    have hthis : FilterKey.subquery = feature.key := hsame "_subquery" rfl (by decide)
    cases feature <;> cases hthis
    exact .subquery hon (decide_eq_true hdepth)
  | existence hdepth hon =>
    have hthis : FilterKey.existence = feature.key := hsame "_exists" rfl (by decide)
    cases feature <;> cases hthis
    exact .existence hon (decide_eq_true hdepth)
  | search hon =>
    have hthis : FilterKey.search = feature.key := hsame "search" rfl (by decide)
    cases feature <;> cases hthis
    exact .search hon
  | trunc hf htemporal hon =>
    have hname := FilterKey.ne_empty_of_ofName (by decide) hread feature.key_ne
    have hthis := hsame _ rfl (FilterKey.ofName_trunc hname)
    cases feature <;> cases hthis
    exact .trunc hon (hkeyed.field?_name hf) htemporal
  | extract hf htemporal hon =>
    have hname := FilterKey.ne_empty_of_ofName (by decide) hread feature.key_ne
    have hthis := hsame _ rfl (FilterKey.ofName_extract hname)
    cases feature <;> cases hthis
    exact .extract hon (hkeyed.field?_name hf) htemporal
  | conditional hfollows hmany hnests hon =>
    have hname := FilterKey.ne_empty_of_ofName (by decide) hread feature.key_ne
    have hthis := hsame _ rfl (FilterKey.ofName_conditionalAggregate hname)
    cases feature <;> cases hthis
    have htarget := Compiler.toMany?_eq_some.mpr ⟨decide_eq_true hfollows.depth, _,
      Compiler.relation?_of_follows hkeyed hfollows, hmany⟩
    exact .conditionalAggregate hon (decide_eq_true hnests) htarget
  -- what remains has the type or the key of no feature
  | stored | identifiers | count | id =>
    exact absurd (FieldKind.operatorsName_mem_operatorsNames _) htype.object_ne.1
  | aggregate => exact absurd rfl htype.object_ne.2
  | joined =>
    have hname := FilterKey.ne_empty_of_ofName (by decide) hread feature.key_ne
    have hrelated := FilterKey.ofName_related hname
    exact absurd (hrelated ▸ hfeature) nofun
  | quantified _ _ _ quantifier =>
    have hname := FilterKey.ne_empty_of_ofName quantifier.ending_mem_endings hread feature.key_ne
    have hquantified := FilterKey.ofName_quantified hname quantifier
    exact absurd (hquantified ▸ hfeature) nofun
  | quick | included | compare => exact absurd hfeature (by decide)
  | negation =>
    have hword : (FilterKey.ofName "NOT").isFeature := hfeature
    exact absurd hword (by decide)
  | combined hand =>
    have hwords : ∀ word, word = "AND" ∨ word = "OR" → ¬(FilterKey.ofName word).isFeature := by
      rintro _ (rfl | rfl) <;> decide
    exact absurd hfeature (hwords _ hand)

end EntityFilter
