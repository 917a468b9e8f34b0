import EntityFilter.Proofs.FilterKeys
import EntityFilter.Proofs.Offers

/-!
# What keys of a filter are read back as

A schema makes the keys of a filter from the names of fields and relations, with endings; reading
takes a key apart again by its spelling alone, without the catalog.  A key with an ending is read
back as what it was made for, but for one case: an aggregate of a relation whose name ends in
`_cond`.  A name that is a key by itself is read back if it is no fixed word and has no ending
(`FilterKey.IsClear`, `FilterKey.ofName_written_iff`).  Validation asks for names that are
identifiers, and no more than that, so there are catalogs with other names in them
(`FilterLanguage.keys_read_back_not_always`).

The compiler makes up for one of the endings: a key that is read as the number of rows of a relation
is compiled as a field if the entity has a field of this name.
-/

namespace EntityFilter

namespace FilterKey

/-! ## Keys that tell what they were made for -/

/-- What keys made for a field stand for. -/
def ofField (name : String) : List FilterKey := [.field name, .trunc name, .extract name]

/-- What keys made for a relation stand for. -/
def ofRelation (name : String) : List FilterKey :=
  [.field name, .related name, .quantified name .some, .quantified name .every,
    .quantified name .none, .aggregate name, .conditionalAggregate name, .count name]

/-- A name that is a key by itself: it is no fixed word, and no ending stands behind a name in
it. -/
structure IsBare (name : String) : Prop where
  word : name ∉ Entries.keys reserved
  ending : ∀ front ending, front ≠ "" → ending ∈ endings.map Prod.fst → name ≠ front ++ ending

/-- Whether the key that is written for something tells what it was written for. -/
def IsClear : FilterKey → Prop
  | field name => IsBare name
  | aggregate relation => ∀ front, front ≠ "" → relation ≠ front ++ "_cond"
  | _ => True

variable {name : String} {k : FilterKey}

lemma ofEnding?_eq_none_iff : ofEnding? name = none ↔
    ∀ front ending, front ≠ "" → ending ∈ endings.map Prod.fst → name ≠ front ++ ending := by
  rw [ofEnding?, List.findSome?_eq_none_iff]
  constructor
  · intro h front _ hfront hending hname
    obtain ⟨p, hp, rfl⟩ := List.mem_map.mp hending
    have hfound := Text.withoutEnding?_eq_some.mpr ⟨hfront, hname⟩
    rw [Option.map_eq_none_iff.mp (h p hp)] at hfound
    cases hfound
  · intro h p hp
    rw [Option.map_eq_none_iff, Option.eq_none_iff_forall_ne_some]
    intro front hfound
    obtain ⟨hfront, hname⟩ := Text.withoutEnding?_eq_some.mp hfound
    exact h front p.1 hfront (List.mem_map.mpr ⟨p, hp, rfl⟩) hname

/-- Which names are read as fields. -/
lemma ofName_eq_field_iff : ofName name = .field name ↔ IsBare name := by
  have hwords : ∀ p ∈ reserved, p.2 ≠ .field p.1 := by decide
  have hendings : ∀ p ∈ endings, ∀ front other, p.2 front ≠ .field other := by
    simp [endings]
  unfold ofName
  constructor
  · intro h
    split at h
    · next k hk =>
      obtain rfl := h
      exact absurd rfl (hwords _ (Entries.mem_of_get? hk))
    · next hnone =>
      refine ⟨Entries.get?_eq_none_iff.mp hnone, ofEnding?_eq_none_iff.mp ?_⟩
      cases hfound : ofEnding? name with
      | none => rfl
      | some k =>
        obtain ⟨p, hp, hk⟩ := List.exists_of_findSome?_eq_some hfound
        obtain ⟨front, -, rfl⟩ := Option.map_eq_some_iff.mp hk
        rw [hfound] at h
        exact absurd h (hendings p hp front name)
  · rintro ⟨hword, hending⟩
    rw [Entries.get?_eq_none_iff.mpr hword, ofEnding?_eq_none_iff.mpr hending]
    rfl

/-- Which relations have their aggregates read back. -/
lemma ofName_eq_aggregate_iff (h : name ≠ "") :
    ofName (name ++ "_agg") = .aggregate name ↔ (FilterKey.aggregate name).IsClear := by
  constructor
  · rintro hread front hfront rfl
    have hspelling : front ++ "_cond" ++ "_agg" = front ++ "_cond_agg" := by
      rw [String.append_assoc]
      rfl
    rw [hspelling, ofName_conditionalAggregate hfront] at hread
    cases hread
  · intro hclear
    refine ofName_aggregate h (Option.eq_none_iff_forall_ne_some.mpr fun front hfront => ?_)
    obtain ⟨hne, hname⟩ := Text.withoutEnding?_eq_some.mp hfront
    exact hclear front hne hname

/-- **Which keys are read back**, of those made from a name. -/
theorem ofName_written_iff (h : name ≠ "") (hk : k ∈ ofField name ∨ k ∈ ofRelation name) :
    ofName k.written = k ↔ k.IsClear := by
  have hkinds : k = .field name ∨ k = .aggregate name ∨
      (ofName k.written = k ∧ k.IsClear) := by
    simp only [ofField, ofRelation, List.mem_cons, List.not_mem_nil, or_false] at hk
    rcases hk with (rfl | rfl | rfl) | rfl | rfl | rfl | rfl | rfl | rfl | rfl | rfl
    · exact .inl rfl
    · exact .inr (.inr ⟨ofName_trunc h, trivial⟩)
    · exact .inr (.inr ⟨ofName_extract h, trivial⟩)
    · exact .inl rfl
    · exact .inr (.inr ⟨ofName_related h, trivial⟩)
    · exact .inr (.inr ⟨ofName_quantified h _, trivial⟩)
    · exact .inr (.inr ⟨ofName_quantified h _, trivial⟩)
    · exact .inr (.inr ⟨ofName_quantified h _, trivial⟩)
    · exact .inr (.inl rfl)
    · exact .inr (.inr ⟨ofName_conditionalAggregate h, trivial⟩)
    · exact .inr (.inr ⟨ofName_count h, trivial⟩)
  rcases hkinds with rfl | rfl | ⟨hread, hclear⟩
  · exact ofName_eq_field_iff
  · exact ofName_eq_aggregate_iff h
  · exact iff_of_true hread hclear

/-! ## What is written under keys -/

/-- The members that an aggregate is written with: a field, if there is one, and a function. -/
structure Aggregates (members : List (String × Document)) : Prop where
  field : ∀ d, Entries.get? "field" members = some d → ∃ name, d = .text name
  function : ∃ f ∈ AggregateFunction.all, (Entries.get? f.name members).isSome

/-- Whether a document has the shape that schemas give to what is written under a key made for a
field or a relation.  Whatever is written under a name or a number of rows is taken as operators. -/
def Fits : FilterKey → Document → Prop
  | field _, _ | count _, _ => True
  | related _, .object _ | quantified _ _, .object _ => True
  | trunc _, .object members =>
    ∃ kind filter, Entries.get? "kind" members = some (.text kind) ∧
      (TruncKind.ofName? kind).isSome ∧ Entries.get? "filter" members = some filter
  | extract _, .object members =>
    ∃ part filter, Entries.get? "part" members = some (.text part) ∧
      (DatePart.ofName? part).isSome ∧ Entries.get? "filter" members = some filter
  | aggregate _, .object members => Aggregates members
  | conditionalAggregate _, .object members =>
    Aggregates members ∧ ∃ condition, Entries.get? "condition" members = some (.object condition)
  | _, _ => False

end FilterKey

/-! ## What is read -/

namespace FilterEntry

open FilterKey

variable {members : List (String × Document)} {d : Document} {k : FilterKey}

lemma exists_aggregation (h : Aggregates members) (relation : String) :
    ∃ a, Aggregation.ofMembers? relation members = some a := by
  obtain ⟨hfield, function, hmem, hfunction⟩ := h
  obtain ⟨operand, hoperand⟩ := Option.isSome_iff_exists.mp hfunction
  have hasked : (function, Leaf.ofDocument operand) ∈ AggregateFunction.all.filterMap fun f =>
      (Entries.get? f.name members).map fun d => (f, Leaf.ofDocument d) :=
    List.mem_filterMap.mpr ⟨function, hmem, by rw [hoperand]; rfl⟩
  have hnonempty := List.ne_nil_of_mem hasked
  unfold Aggregation.ofMembers?
  cases hget : Entries.get? "field" members with
  | none => simp [hnonempty]
  | some d =>
    obtain ⟨name, rfl⟩ := hfield d hget
    simp [Document.asText?, hnonempty]

/-- **What fits is read.** -/
theorem exists_ofDocument? (h : k.Fits d) : ∃ entry, ofDocument? k d = some entry := by
  cases k with
  | field | count => exact ⟨_, by rw [ofDocument?]⟩
  | related | quantified =>
    cases d with
    | object members => exact ⟨_, by rw [ofDocument?, Filter.ofDocument?]; rfl⟩
    | _ => cases h
  | trunc field =>
    cases d with
    | object members =>
      obtain ⟨kind, filter, hkind, hname, hfilter⟩ := h
      obtain ⟨trunc, htrunc⟩ := Option.isSome_iff_exists.mp hname
      refine ⟨.trunc ⟨field, trunc, .ofDocument filter⟩, ?_⟩
      simp [ofDocument?, TruncFilter.ofDocument?, Record.ofDocument?, Record.get?, hkind, hfilter,
        Document.word?, htrunc]
    | _ => cases h
  | extract field =>
    cases d with
    | object members =>
      obtain ⟨part, filter, hpart, hname, hfilter⟩ := h
      obtain ⟨date, hdate⟩ := Option.isSome_iff_exists.mp hname
      refine ⟨.extract ⟨field, date, .ofDocument filter⟩, ?_⟩
      simp [ofDocument?, ExtractFilter.ofDocument?, Record.ofDocument?, Record.get?, hpart, hfilter,
        Document.word?, hdate]
    | _ => cases h
  | aggregate relation =>
    cases d with
    | object members =>
      obtain ⟨a, ha⟩ := exists_aggregation h relation
      exact ⟨_, by rw [ofDocument?, ha]; rfl⟩
    | _ => cases h
  | conditionalAggregate relation =>
    cases d with
    | object members =>
      obtain ⟨haggregates, condition, hcondition⟩ := h
      obtain ⟨a, ha⟩ := exists_aggregation haggregates relation
      have hf : Filter.ofMember? "condition" members = some (some (.node (ofMembers condition))) := by
        simp only [Filter.ofMember?_eq, hcondition, Filter.optionalOfDocument?]
      exact ⟨_, by rw [ofDocument?, ha, hf, hcondition]⟩
    | _ => cases h
  | _ => cases d <;> cases h

end FilterEntry

/-- What is written under a key is read as what the key was made for, if the key is clear, and never
otherwise. -/
structure FilterKey.ReadsBack (key : String) (k : FilterKey) : Prop where
  written : k.written = key
  read : k.IsClear → ∀ d, k.Fits d →
    ∃ entry, FilterEntry.ofDocument? (ofName key) d = some entry ∧ entry.key = k
  clear : ∀ d entry, FilterEntry.ofDocument? (ofName key) d = some entry →
    (entry.key = k ↔ k.IsClear)

lemma FilterKey.readsBack_written {name : String} {k : FilterKey} (h : name ≠ "")
    (hk : k ∈ ofField name ∨ k ∈ ofRelation name) : ReadsBack k.written k where
  written := rfl
  read hclear d hfits := by
    have hread := (ofName_written_iff h hk).mpr hclear
    obtain ⟨entry, hentry⟩ := FilterEntry.exists_ofDocument? hfits
    rw [hread]
    exact ⟨entry, hentry, (FilterEntry.readUnder_of_ofDocument? _ _ hentry).key_eq⟩
  clear d entry hentry := by
    rw [(FilterEntry.readUnder_of_ofDocument? _ _ hentry).key_eq]
    exact ofName_written_iff h hk

/-- Two entries under a key of a filter on an entity ask for the same projections, and constrain the
rows in the same way. -/
def FilterEntry.CompileAlike (e : Entity) (key : String) (x y : FilterEntry) : Prop :=
  ∀ (c : Compiler) (set : ProjectionSet) (s : Scope), s.entity = e →
    x.collect c s key set = y.collect c s key set ∧
      x.predicate? c set s key = y.predicate? c set s key

/-- A number of rows is compiled as a field, if there is a field of the name that the key is. -/
lemma FilterEntry.compileAlike_count {e : Entity} {key relation : String} (h : e.hasField key)
    (leaf : Leaf) : CompileAlike e key (.count relation leaf) (.field key leaf) := by
  rintro c set s rfl
  constructor
  · simp only [collect, Compiler.collectOwn, h, ↓reduceIte]
  · rw [predicate?, predicate?, if_pos h]

/-! ## What keys are made for -/

lemma ne_empty_of_isIdentifier {name : String} (h : isIdentifier name) : name ≠ "" := by
  rintro rfl
  simp [isIdentifier] at h

namespace Entity

variable {c : Catalog} {e : Entity}

/-- In a valid catalog, all fields and relations have names. -/
lemma ne_empty_of_faults (h : e.faults c = []) :
    (∀ f ∈ e.fields.values, f.name ≠ "") ∧ ∀ r ∈ e.relations.values, r.name ≠ "" := by
  simp only [faults, List.append_eq_nil_iff, List.flatMap_eq_nil_iff, ite_eq_left_iff,
    List.cons_ne_nil, imp_false, not_not] at h
  exact ⟨fun f hf => ne_empty_of_isIdentifier (h.1.2 f hf),
    fun r hr => ne_empty_of_isIdentifier (h.2 r hr).1.1⟩

end Entity

namespace FilterLanguage

open FilterKey

variable {l : FilterLanguage} {e : Entity} {depth : Nat} {o : Offer}

/-- What a key that is offered for a field stands for. -/
lemma exists_ofField {f : Field} (h : o ∈ l.fieldOffers f) :
    ∃ k ∈ ofField f.name, k.written = o.field.name := by
  rcases mem_fieldOffers_iff.mp h with ⟨-, rfl⟩ | ⟨-, ⟨-, rfl⟩ | ⟨-, rfl⟩⟩
  · exact ⟨.field f.name, by simp [ofField], rfl⟩
  · exact ⟨.trunc f.name, by simp [ofField], rfl⟩
  · exact ⟨.extract f.name, by simp [ofField], rfl⟩

/-- What a key that is offered for a relation stands for. -/
lemma exists_ofRelation {r : Relation} (h : o ∈ l.relationOffers e depth r) :
    ∃ k ∈ ofRelation r.name, k.written = o.field.name := by
  obtain ⟨target, -, h⟩ := mem_relationOffers_iff.mp h
  rcases h with ⟨-, rfl⟩ | ⟨-, hmany⟩ | ⟨-, -, rfl⟩
  · exact ⟨.field r.name, by simp [ofRelation], rfl⟩
  · rcases mem_toManyOffers_iff.mp hmany with rfl | ⟨-, rfl⟩ | ⟨-, ⟨-, rfl⟩ | ⟨quantifier, rfl⟩⟩
    · exact ⟨.aggregate r.name, by simp [ofRelation], rfl⟩
    · exact ⟨.count r.name, by simp [ofRelation], rfl⟩
    · exact ⟨.conditionalAggregate r.name, by simp [ofRelation], rfl⟩
    · refine ⟨.quantified r.name quantifier, ?_, rfl⟩
      cases quantifier <;> simp [ofRelation]
  · exact ⟨.related r.name, by simp [ofRelation], rfl⟩

end FilterLanguage

/-- **Keys are read back.**  In a valid catalog, with any settings, at any depth: a key that a
filter on an entity offers for a field or a relation is made from its name with an ending, and what
is written under it, in the shape that it asks for, is read as an entry of this ending on this name,
if the key is clear; otherwise nothing is.  A key that is the name of a field and ends in `_count`
is read as a number of rows, and compiled as the field. -/
theorem FilterLanguage.keys_read_back {l : FilterLanguage} {n : String} {e : Entity}
    (hvalid : l.catalog.IsValid) (he : l.catalog.entity? n = some e) (depth : Nat) :
    (∀ f ∈ e.fields.values, ∀ o ∈ l.fieldOffers f,
      ∃ k ∈ FilterKey.ofField f.name, FilterKey.ReadsBack o.field.name k) ∧
    (∀ r ∈ e.relations.values, ∀ o ∈ l.relationOffers e depth r,
      ∃ k ∈ FilterKey.ofRelation r.name, FilterKey.ReadsBack o.field.name k) ∧
    ∀ front, front ≠ "" → e.hasField (front ++ "_count") → ∀ d,
      FilterEntry.ofDocument? (FilterKey.ofName (front ++ "_count")) d =
          some (.count front (.ofDocument d)) ∧
        FilterEntry.CompileAlike e (front ++ "_count") (.count front (.ofDocument d))
          (.field (front ++ "_count") (.ofDocument d)) := by
  have hfaults : e.faults l.catalog = [] :=
    List.flatMap_eq_nil_iff.mp hvalid e (Catalog.mem_values_of_entity? he)
  obtain ⟨hfields, hrelations⟩ := Entity.ne_empty_of_faults hfaults
  refine ⟨fun f hf o ho => ?_, fun r hr o ho => ?_, ?_⟩
  · obtain ⟨k, hk, hwritten⟩ := exists_ofField ho
    exact ⟨k, hk, hwritten ▸ FilterKey.readsBack_written (hfields f hf) (.inl hk)⟩
  · obtain ⟨k, hk, hwritten⟩ := exists_ofRelation ho
    exact ⟨k, hk, hwritten ▸ FilterKey.readsBack_written (hrelations r hr) (.inr hk)⟩
  · intro front hfront hstored d
    refine ⟨?_, FilterEntry.compileAlike_count hstored _⟩
    rw [FilterKey.ofName_count hfront, FilterEntry.ofDocument?]

namespace Shop

/-- Parcels with a day of dispatch, and with a field whose name has the ending of a relation. -/
def parcel : Entity :=
  ((Entity.withField { name := "Parcel" } { name := "id", kind := .id }).withField
    { name := "sent", kind := .date }).withField { name := "weight_rel", kind := .text }

/-- Filters on parcels, every feature switched on. -/
def parcels : FilterLanguage :=
  { catalog := Catalog.withEntity {} parcel, settings := { features := .all } }

end Shop

/-- The days of dispatch of parcels are truncated. -/
theorem FilterLanguage.keys_read_back_sent :
    Shop.parcels.catalog.IsValid ∧ Shop.parcels.catalog.entity? "Parcel" = some Shop.parcel ∧
      ∀ d, (FilterKey.trunc "sent").Fits d → ∃ entry,
        FilterEntry.ofDocument? (FilterKey.ofName "sent_trunc") d = some entry ∧
          entry.key = .trunc "sent" := by
  have hvalid : Shop.parcels.catalog.IsValid := rfl
  have hparcel : Shop.parcels.catalog.entity? "Parcel" = some Shop.parcel := rfl
  refine ⟨hvalid, hparcel, fun d hd => ?_⟩
  obtain ⟨hfields, -, -⟩ := FilterLanguage.keys_read_back hvalid hparcel 0
  obtain ⟨k, hk, hread⟩ := hfields { name := "sent", kind := .date } (.tail _ (.head _)) _
    (mem_fieldOffers_iff.mpr (.inr ⟨rfl, .inl ⟨rfl, rfl⟩⟩))
  have hkey : ∀ k ∈ FilterKey.ofField "sent", k.written = "sent_trunc" → k = .trunc "sent" := by
    decide
  obtain rfl := hkey k hk hread.written
  exact hread.read trivial d hd

/-- A key need not be read back as the field that it was made for: a field may have the ending of a
relation. -/
theorem FilterLanguage.keys_read_back_not_always :
    ¬∀ (l : FilterLanguage) (n : String) (e : Entity) (depth : Nat), l.catalog.IsValid →
      l.catalog.entity? n = some e → ∀ f ∈ e.fields.values, ∀ o ∈ l.fieldOffers f,
        (l.filterObject e depth).field? o.field.name = some o.field →
        ∀ k ∈ FilterKey.ofField f.name, k.written = o.field.name → ∀ d, k.Fits d →
          ∃ entry, FilterEntry.ofDocument? (FilterKey.ofName o.field.name) d = some entry ∧
            (entry.key = k ∨
              ∃ front, f.name = front ++ "_count" ∧ entry.key = .count front) := by
  intro hclaim
  obtain ⟨entry, hentry, hkey⟩ := hclaim Shop.parcels "Parcel" Shop.parcel 0 rfl rfl
    { name := "weight_rel", kind := .text } (.tail _ (.tail _ (.head _))) _
    (mem_fieldOffers_iff.mpr (.inl ⟨nofun, rfl⟩)) rfl (.field "weight_rel") (by decide) rfl
    (.object [("eq", .text "light")]) trivial
  have hrelated : FilterKey.ofName "weight_rel" = .related "weight" := by decide
  have hread : entry.key = .related "weight" :=
    (FilterEntry.readUnder_of_ofDocument? _ _ hentry).key_eq.trans hrelated
  rw [hread] at hkey
  rcases hkey with hkey | ⟨front, -, hkey⟩ <;> cases hkey

end EntityFilter
