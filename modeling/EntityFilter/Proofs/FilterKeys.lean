import EntityFilter.Filter.Reader
import EntityFilter.Proofs.CatalogPaths

/-!
# Keys and what is read under them

`FilterKey.ofName` says what a key stands for, and no two keys stand for the same: what a key stands
for gives the key back (`FilterKey.written_ofName`).  An entry shows what its key stands for
(`FilterEntry.key`), so the entries of a filter that has been read stand under the keys that they
show, at every level (`Filter.isKeyed_of_ofDocument?`).

The other way round, a name with an ending stands for what the ending says, unless the name is
empty, or the name itself ends in such a way that a longer ending is found first.  The only case of
the latter is an aggregate of a relation whose name ends in `_cond`
(`FilterKey.ofName_aggregate`).
-/

namespace EntityFilter

/-! ## Endings -/

namespace Text

variable {s ending name other : String}

lemma endsWith_iff : endsWith s ending ↔ ending.toList <:+ s.toList :=
  List.isSuffixOf_iff_suffix

/-- A text with an ending is what is left of it, followed by the ending. -/
lemma withoutEnding?_eq_some :
    withoutEnding? s ending = some name ↔ name ≠ "" ∧ s = name ++ ending := by
  unfold withoutEnding?
  constructor
  · intro h
    split at h
    · next hends =>
      obtain ⟨front, hfront⟩ := endsWith_iff.mp hends.1
      have hlength : s.length = front.length + ending.length := by
        rw [← String.length_toList, ← hfront, List.length_append, String.length_toList]
      have hname : name.toList = front := by
        rw [← Option.some.inj h, String.toList_ofList, ← hfront, hlength, Nat.add_sub_cancel,
          List.take_left]
      refine ⟨fun hempty => ?_, String.toList_inj.mp ?_⟩
      · rw [hempty] at hname
        have hzero : front.length = 0 := by rw [← hname]; rfl
        omega
      · rw [String.toList_append, hname, hfront]
    · simp at h
  · rintro ⟨hname, rfl⟩
    have hlength : (name ++ ending).length = name.length + ending.length := String.length_append _ _
    have hpos : name.length ≠ 0 := by
      rw [← String.length_toList]
      intro hzero
      exact hname (String.toList_inj.mp (List.length_eq_zero_iff.mp hzero))
    have hends : endsWith (name ++ ending) ending := by
      rw [endsWith_iff, String.toList_append]
      exact List.suffix_append _ _
    rw [if_pos ⟨hends, by omega⟩, hlength, Nat.add_sub_cancel, String.toList_append,
      ← String.length_toList, List.take_left, String.ofList_toList]

/-- Of two endings of which neither ends in the other, a text has one at most. -/
lemma withoutEnding?_append_eq_none (h : ¬ending.toList <:+ other.toList)
    (h' : ¬other.toList <:+ ending.toList) : withoutEnding? (name ++ ending) other = none := by
  rw [Option.eq_none_iff_forall_ne_some]
  intro rest hrest
  obtain ⟨-, hsame⟩ := withoutEnding?_eq_some.mp hrest
  have hend : ending.toList <:+ (name ++ ending).toList := by
    rw [String.toList_append]
    exact List.suffix_append _ _
  have hother : other.toList <:+ (name ++ ending).toList := by
    rw [hsame, String.toList_append]
    exact List.suffix_append _ _
  rcases List.suffix_or_suffix_of_suffix hend hother with hsuffix | hsuffix
  · exact h hsuffix
  · exact h' hsuffix

end Text

/-! ## What a key stands for -/

namespace FilterKey

/-- The key that stands for something. -/
def written : FilterKey → String
  | all => "AND"
  | any => "OR"
  | negation => "NOT"
  | id => "id"
  | quick => "quick"
  | included => "include"
  | search => "search"
  | window => "_window"
  | subquery => "_subquery"
  | existence => "_exists"
  | compare => "_compare"
  | conditionalAggregate relation => relation ++ "_cond_agg"
  | aggregate relation => relation ++ "_agg"
  | related relation => relation ++ "_rel"
  | quantified relation quantifier => relation ++ quantifier.ending
  | trunc name => name ++ "_trunc"
  | extract name => name ++ "_extract"
  | count relation => relation ++ "_count"
  | field name => name

lemma written_of_mem_reserved : ∀ p ∈ reserved, p.2.written = p.1 := by decide

lemma written_of_mem_endings : ∀ p ∈ endings, ∀ name, (p.2 name).written = name ++ p.1 := by
  simp [endings, written]

/-- **What a key stands for gives the key back.** -/
theorem written_ofName (key : String) : (ofName key).written = key := by
  unfold ofName
  split
  · next k hk => exact written_of_mem_reserved _ (Entries.mem_of_get? hk)
  · cases hending : ofEnding? key with
    | none => rfl
    | some k =>
      obtain ⟨p, hp, hk⟩ := List.exists_of_findSome?_eq_some hending
      obtain ⟨name, hname, rfl⟩ := Option.map_eq_some_iff.mp hk
      obtain ⟨-, rfl⟩ := Text.withoutEnding?_eq_some.mp hname
      exact written_of_mem_endings p hp name

/-! ### Names with an ending -/

variable {name ending : String}

/-- No fixed word has an ending. -/
lemma ofName_append (h : ending ∈ endings.map Prod.fst) :
    ofName (name ++ ending) = (ofEnding? (name ++ ending)).getD (field (name ++ ending)) := by
  have hwords : ∀ word ∈ Entries.keys reserved, ∀ ending ∈ endings.map Prod.fst,
      ¬Text.endsWith word ending := by decide
  have hnone : Entries.get? (name ++ ending) reserved = none := by
    rw [Entries.get?_eq_none_iff]
    intro hmem
    refine hwords _ hmem ending h (Text.endsWith_iff.mpr ?_)
    rw [String.toList_append]
    exact List.suffix_append _ _
  unfold ofName
  rw [hnone]

lemma withoutEnding?_append (h : name ≠ "") :
    Text.withoutEnding? (name ++ ending) ending = some name :=
  Text.withoutEnding?_eq_some.mpr ⟨h, rfl⟩

/-- The first ending that is found decides: here the one at place `i`. -/
lemma ofName_of_first {make : String → FilterKey} (i : Nat) (hi : endings[i]? = some (ending, make))
    (h : name ≠ "")
    (hbefore : ∀ p ∈ endings.take i, Text.withoutEnding? (name ++ ending) p.1 = none) :
    ofName (name ++ ending) = make name := by
  have hmem : ending ∈ endings.map Prod.fst :=
    List.mem_map.mpr ⟨(ending, make), List.mem_of_getElem? hi, rfl⟩
  have hsplit : endings = endings.take i ++ (ending, make) :: endings.drop (i + 1) := by
    obtain ⟨hlength, hget⟩ := List.getElem?_eq_some_iff.mp hi
    rw [← hget, ← List.drop_eq_getElem_cons hlength, List.take_append_drop]
  have hfirst : ofEnding? (name ++ ending) = some (make name) := by
    refine List.findSome?_eq_some_iff.mpr
      ⟨endings.take i, (ending, make), endings.drop (i + 1), hsplit, ?_, ?_⟩
    · simp only [withoutEnding?_append h, Option.map_some]
    · intro p hp
      simp only [hbefore p hp, Option.map_none]
  rw [ofName_append hmem, hfirst]
  rfl

lemma ofName_of_apart {make : String → FilterKey} (i : Nat) (hi : endings[i]? = some (ending, make))
    (h : name ≠ "") (hbefore : ∀ p ∈ endings.take i,
      ¬ending.toList <:+ p.1.toList ∧ ¬p.1.toList <:+ ending.toList) :
    ofName (name ++ ending) = make name :=
  ofName_of_first i hi h fun p hp =>
    Text.withoutEnding?_append_eq_none (hbefore p hp).1 (hbefore p hp).2

lemma ofName_conditionalAggregate (h : name ≠ "") :
    ofName (name ++ "_cond_agg") = .conditionalAggregate name :=
  ofName_of_apart 0 rfl h (by simp)

lemma ofName_related (h : name ≠ "") : ofName (name ++ "_rel") = .related name :=
  ofName_of_apart 2 rfl h (by decide)

lemma ofName_trunc (h : name ≠ "") : ofName (name ++ "_trunc") = .trunc name :=
  ofName_of_apart 6 rfl h (by decide)

lemma ofName_extract (h : name ≠ "") : ofName (name ++ "_extract") = .extract name :=
  ofName_of_apart 7 rfl h (by decide)

lemma ofName_count (h : name ≠ "") : ofName (name ++ "_count") = .count name :=
  ofName_of_apart 8 rfl h (by decide)

lemma ofName_quantified (h : name ≠ "") (quantifier : Quantifier) :
    ofName (name ++ quantifier.ending) = .quantified name quantifier := by
  cases quantifier with
  | some => exact ofName_of_apart 3 rfl h (by decide)
  | every => exact ofName_of_apart 4 rfl h (by decide)
  | none => exact ofName_of_apart 5 rfl h (by decide)

/-- An aggregate of a relation whose name ends in `_cond` is a conditional aggregate of another. -/
lemma ofName_aggregate (h : name ≠ "") (hcond : Text.withoutEnding? name "_cond" = none) :
    ofName (name ++ "_agg") = .aggregate name := by
  refine ofName_of_first 1 rfl h ?_
  intro p hp
  obtain rfl := List.mem_singleton.mp hp
  rw [Option.eq_none_iff_forall_ne_some] at hcond ⊢
  intro rest hrest
  obtain ⟨hne, hsame⟩ := Text.withoutEnding?_eq_some.mp hrest
  refine hcond rest (Text.withoutEnding?_eq_some.mpr ⟨hne, ?_⟩)
  have hlists := congrArg String.toList hsame
  have hending : "_cond_agg".toList = "_cond".toList ++ "_agg".toList := rfl
  rw [String.toList_append, String.toList_append, hending, ← List.append_assoc] at hlists
  rw [← String.toList_inj, String.toList_append]
  exact List.append_cancel_right hlists

end FilterKey

/-! ## What an entry stands for -/

/-- The key that an entry shows. -/
def FilterEntry.key : FilterEntry → FilterKey
  | .all _ => .all
  | .any _ => .any
  | .negation _ => .negation
  | .id _ => .id
  | .quick _ => .quick
  | .included _ => .included
  | .search _ => .search
  | .window _ => .window
  | .subquery _ => .subquery
  | .existence _ => .existence
  | .compare _ => .compare
  | .related relation _ => .related relation
  | .quantified relation quantifier _ => .quantified relation quantifier
  | .aggregate a (some _) => .conditionalAggregate a.relation
  | .aggregate a none => .aggregate a.relation
  | .trunc t => .trunc t.field
  | .extract e => .extract e.field
  | .count relation _ => .count relation
  | .field name _ => .field name

lemma Aggregation.relation_of_ofMembers? {relation : String} {members : List (String × Document)}
    {a : Aggregation} (h : Aggregation.ofMembers? relation members = some a) :
    a.relation = relation := by
  unfold Aggregation.ofMembers? at h
  have hfunctions : ∀ {field : Option String} {functions : List (AggregateFunction × Leaf)},
      (if functions.isEmpty then none else some (⟨relation, field, functions⟩ : Aggregation)) =
        some a → a.relation = relation := by
    intro field functions h
    split at h
    · simp at h
    · obtain rfl := Option.some.inj h
      rfl
  simp only at h
  split at h
  · obtain ⟨field, -, h⟩ := Option.bind_eq_some_iff.mp h
    exact hfunctions h
  · obtain ⟨field, -, h⟩ := Option.bind_eq_some_iff.mp h
    exact hfunctions h

lemma TruncFilter.field_of_ofDocument? {field : String} {d : Document} {t : TruncFilter}
    (h : TruncFilter.ofDocument? field d = some t) : t.field = field := by
  unfold TruncFilter.ofDocument? at h
  simp only [Option.bind_eq_bind, Option.bind_eq_some_iff, Option.pure_def,
    Option.some.injEq] at h
  obtain ⟨-, -, -, -, -, -, -, -, rfl⟩ := h
  rfl

lemma ExtractFilter.field_of_ofDocument? {field : String} {d : Document} {e : ExtractFilter}
    (h : ExtractFilter.ofDocument? field d = some e) : e.field = field := by
  unfold ExtractFilter.ofDocument? at h
  simp only [Option.bind_eq_bind, Option.bind_eq_some_iff, Option.pure_def,
    Option.some.injEq] at h
  obtain ⟨-, -, -, -, -, -, -, -, rfl⟩ := h
  rfl

/-- The filter that a member writes is that of the first member of its key. -/
lemma Filter.ofMember?_eq (key : String) (ms : List (String × Document)) :
    Filter.ofMember? key ms =
      match Entries.get? key ms with
      | some d => Filter.optionalOfDocument? d
      | none => some none := by
  induction ms with
  | nil => rw [Filter.ofMember?, Entries.get?]
  | cons m ms ih =>
    obtain ⟨key', d⟩ := m
    rw [Filter.ofMember?, Entries.get?, ih]
    split <;> rfl

/-- At every level, entries stand under the keys that they show. -/
inductive Filter.IsKeyed : Filter → Prop where
  | intro {f : Filter} : (∀ p ∈ f.entries, FilterKey.ofName p.1 = p.2.key) →
      (∀ p ∈ f.entries, ∀ inner ∈ p.2.children, IsKeyed inner) → IsKeyed f

/-- An entry that has been read under a key: it shows the key, and so do the entries of the filters
that it holds. -/
structure FilterEntry.ReadUnder (key : FilterKey) (e : FilterEntry) : Prop where
  key_eq : e.key = key
  children : ∀ f ∈ e.children, f.IsKeyed

lemma Filter.isKeyed_node {es : List (String × FilterEntry)}
    (h : ∀ p ∈ es, p.2.ReadUnder (FilterKey.ofName p.1)) : (Filter.node es).IsKeyed :=
  .intro (fun p hp => (h p hp).key_eq.symm) fun p hp => (h p hp).children

mutual

/-- **What has been read is keyed.** -/
theorem Filter.isKeyed_of_ofDocument? :
    ∀ (d : Document) {f : Filter}, Filter.ofDocument? d = some f → f.IsKeyed
  | .object members, f, h => by
    rw [Filter.ofDocument?] at h
    obtain rfl := Option.some.inj h
    exact Filter.isKeyed_node (FilterEntry.readUnder_of_mem_ofMembers members)
  | .null, _, h | .bool _, _, h | .int _, _, h | .float _, _, h | .text _, _, h
  | .array _, _, h => by
    simp [Filter.ofDocument?] at h
termination_by d => (sizeOf d, 0)

theorem FilterEntry.readUnder_of_mem_ofMembers :
    ∀ (members : List (String × Document)), ∀ p ∈ FilterEntry.ofMembers members,
      p.2.ReadUnder (FilterKey.ofName p.1)
  | [], p, hp => by simp [FilterEntry.ofMembers] at hp
  | (key, d) :: rest, p, hp => by
    rw [FilterEntry.ofMembers] at hp
    split at hp
    · next e he =>
      rcases List.mem_cons.mp hp with rfl | hp
      · exact FilterEntry.readUnder_of_ofDocument? _ d he
      · exact FilterEntry.readUnder_of_mem_ofMembers rest p hp
    · exact FilterEntry.readUnder_of_mem_ofMembers rest p hp
termination_by members => (sizeOf members, 0)

theorem FilterEntry.readUnder_of_ofDocument? :
    ∀ (key : FilterKey) (d : Document) {e : FilterEntry},
      FilterEntry.ofDocument? key d = some e → e.ReadUnder key
  | .all, d, e, h | .any, d, e, h => by
    rw [FilterEntry.ofDocument?] at h
    obtain ⟨fs, hfs, rfl⟩ := Option.map_eq_some_iff.mp h
    exact ⟨rfl, Filter.isKeyed_of_listOfDocument? d hfs⟩
  | .negation, d, e, h | .related _, d, e, h | .quantified _ _, d, e, h => by
    rw [FilterEntry.ofDocument?] at h
    obtain ⟨f, hf, rfl⟩ := Option.map_eq_some_iff.mp h
    refine ⟨rfl, fun g hg => ?_⟩
    obtain rfl := List.mem_singleton.mp hg
    exact Filter.isKeyed_of_ofDocument? d hf
  | .existence, d, e, h => by
    rw [FilterEntry.ofDocument?] at h
    split at h
    · simp at h
    · obtain rfl := Option.some.inj h
      refine ⟨rfl, fun f hf => ?_⟩
      obtain ⟨item, hitem, hsome⟩ := List.mem_filterMap.mp hf
      exact ExistenceTest.isKeyed_of_mem_listOfDocument d item hitem f hsome
  | .conditionalAggregate relation, .object members, e, h => by
    rw [FilterEntry.ofDocument?] at h
    split at h
    · next a f raw ha hf _ =>
      obtain rfl := Option.some.inj h
      refine ⟨congrArg FilterKey.conditionalAggregate (Aggregation.relation_of_ofMembers? ha),
        fun g hg => ?_⟩
      obtain rfl := List.mem_singleton.mp hg
      exact Filter.isKeyed_of_ofMember? members hf _ rfl
    · simp at h
  | .aggregate relation, .object members, e, h => by
    rw [FilterEntry.ofDocument?] at h
    obtain ⟨a, ha, rfl⟩ := Option.map_eq_some_iff.mp h
    exact ⟨congrArg FilterKey.aggregate (Aggregation.relation_of_ofMembers? ha),
      by simp [FilterEntry.children]⟩
  | .conditionalAggregate _, .null, _, h | .conditionalAggregate _, .bool _, _, h
  | .conditionalAggregate _, .int _, _, h | .conditionalAggregate _, .float _, _, h
  | .conditionalAggregate _, .text _, _, h | .conditionalAggregate _, .array _, _, h
  | .aggregate _, .null, _, h | .aggregate _, .bool _, _, h | .aggregate _, .int _, _, h
  | .aggregate _, .float _, _, h | .aggregate _, .text _, _, h | .aggregate _, .array _, _, h => by
    simp [FilterEntry.ofDocument?] at h
  | .trunc field, d, e, h => by
    rw [FilterEntry.ofDocument?] at h
    obtain ⟨t, ht, rfl⟩ := Option.map_eq_some_iff.mp h
    exact ⟨congrArg FilterKey.trunc (TruncFilter.field_of_ofDocument? ht),
      by simp [FilterEntry.children]⟩
  | .extract field, d, e, h => by
    rw [FilterEntry.ofDocument?] at h
    obtain ⟨t, ht, rfl⟩ := Option.map_eq_some_iff.mp h
    exact ⟨congrArg FilterKey.extract (ExtractFilter.field_of_ofDocument? ht),
      by simp [FilterEntry.children]⟩
  | .quick, d, e, h | .search, d, e, h | .window, d, e, h | .subquery, d, e, h
  | .compare, d, e, h => by
    rw [FilterEntry.ofDocument?] at h
    obtain ⟨_, -, rfl⟩ := Option.map_eq_some_iff.mp h
    exact ⟨rfl, by simp [FilterEntry.children]⟩
  | .id, d, e, h | .included, d, e, h | .count _, d, e, h | .field _, d, e, h => by
    rw [FilterEntry.ofDocument?] at h
    obtain rfl := Option.some.inj h
    exact ⟨rfl, by simp [FilterEntry.children]⟩
termination_by _ d => (sizeOf d, 1)

theorem Filter.isKeyed_of_listOfDocument? :
    ∀ (d : Document) {fs : List Filter}, Filter.listOfDocument? d = some fs → ∀ f ∈ fs, f.IsKeyed
  | .array items, fs, h => by
    rw [Filter.listOfDocument?] at h
    obtain rfl := Option.some.inj h
    exact Filter.isKeyed_of_mem_listOfItems items
  | .object members, fs, h => by
    rw [Filter.listOfDocument?] at h
    obtain rfl := Option.some.inj h
    intro f hf
    obtain rfl := List.mem_singleton.mp hf
    exact Filter.isKeyed_node (FilterEntry.readUnder_of_mem_ofMembers members)
  | .null, _, h | .bool _, _, h | .int _, _, h | .float _, _, h | .text _, _, h => by
    simp [Filter.listOfDocument?] at h
termination_by d => (sizeOf d, 0)

theorem Filter.isKeyed_of_mem_listOfItems :
    ∀ (items : List Document), ∀ f ∈ Filter.listOfItems items, f.IsKeyed
  | [], f, hf => by simp [Filter.listOfItems] at hf
  | d :: ds, f, hf => by
    rw [Filter.listOfItems] at hf
    split at hf
    · next g hg =>
      rcases List.mem_cons.mp hf with rfl | hf
      · exact Filter.isKeyed_of_ofDocument? d hg
      · exact Filter.isKeyed_of_mem_listOfItems ds f hf
    · exact Filter.isKeyed_of_mem_listOfItems ds f hf
termination_by items => (sizeOf items, 0)

theorem Filter.isKeyed_of_optionalOfDocument? :
    ∀ (d : Document) {f? : Option Filter}, Filter.optionalOfDocument? d = some f? →
      ∀ f, f? = some f → f.IsKeyed
  | .null, _, h, f, hf => by
    rw [Filter.optionalOfDocument?] at h
    obtain rfl := Option.some.inj h
    simp at hf
  | .object members, _, h, f, hf => by
    rw [Filter.optionalOfDocument?] at h
    obtain rfl := Option.some.inj h
    obtain rfl := Option.some.inj hf
    exact Filter.isKeyed_node (FilterEntry.readUnder_of_mem_ofMembers members)
  | .bool _, _, h, _, _ | .int _, _, h, _, _ | .float _, _, h, _, _ | .text _, _, h, _, _
  | .array _, _, h, _, _ => by
    simp [Filter.optionalOfDocument?] at h
termination_by d => (sizeOf d, 0)

theorem Filter.isKeyed_of_ofMember? {key : String} :
    ∀ (members : List (String × Document)) {f? : Option Filter},
      Filter.ofMember? key members = some f? → ∀ f, f? = some f → f.IsKeyed
  | [], _, h, f, hf => by
    rw [Filter.ofMember?] at h
    obtain rfl := Option.some.inj h
    simp at hf
  | (key', d) :: rest, _, h, f, hf => by
    rw [Filter.ofMember?] at h
    split at h
    · exact Filter.isKeyed_of_optionalOfDocument? d h f hf
    · exact Filter.isKeyed_of_ofMember? rest h f hf
termination_by members => (sizeOf members, 0)

theorem ExistenceTest.isKeyed_of_mem_listOfDocument :
    ∀ (d : Document), ∀ item ∈ ExistenceTest.listOfDocument d, ∀ f, item.2 = some f → f.IsKeyed
  | .array items, item, hitem, f, hf => by
    rw [ExistenceTest.listOfDocument] at hitem
    exact ExistenceTest.isKeyed_of_mem_listOfItems items item hitem f hf
  | .object members, item, hitem, f, hf => by
    rw [ExistenceTest.listOfDocument, Option.mem_toList] at hitem
    exact ExistenceTest.isKeyed_of_ofMembers? members hitem f hf
  | .null, _, hitem, _, _ | .bool _, _, hitem, _, _ | .int _, _, hitem, _, _
  | .float _, _, hitem, _, _ | .text _, _, hitem, _, _ => by
    simp [ExistenceTest.listOfDocument] at hitem
termination_by d => (sizeOf d, 0)

theorem ExistenceTest.isKeyed_of_mem_listOfItems :
    ∀ (items : List Document), ∀ item ∈ ExistenceTest.listOfItems items,
      ∀ f, item.2 = some f → f.IsKeyed
  | [], _, hitem, _, _ => by simp [ExistenceTest.listOfItems] at hitem
  | .object members :: ds, item, hitem, f, hf => by
    rw [ExistenceTest.listOfItems] at hitem
    split at hitem
    · next first hfirst =>
      rcases List.mem_cons.mp hitem with rfl | hitem
      · exact ExistenceTest.isKeyed_of_ofMembers? members hfirst f hf
      · exact ExistenceTest.isKeyed_of_mem_listOfItems ds item hitem f hf
    · exact ExistenceTest.isKeyed_of_mem_listOfItems ds item hitem f hf
  | .array fields :: ds, item, hitem, f, hf => by
    rw [ExistenceTest.listOfItems] at hitem
    split at hitem
    · next first hfirst =>
      rcases List.mem_cons.mp hitem with rfl | hitem
      · exact ExistenceTest.isKeyed_of_ofFields? fields hfirst f hf
      · exact ExistenceTest.isKeyed_of_mem_listOfItems ds item hitem f hf
    · exact ExistenceTest.isKeyed_of_mem_listOfItems ds item hitem f hf
  | .null :: ds, item, hitem, f, hf | .bool _ :: ds, item, hitem, f, hf
  | .int _ :: ds, item, hitem, f, hf | .float _ :: ds, item, hitem, f, hf
  | .text _ :: ds, item, hitem, f, hf => by
    simp only [ExistenceTest.listOfItems] at hitem
    exact ExistenceTest.isKeyed_of_mem_listOfItems ds item hitem f hf
termination_by items => (sizeOf items, 0)

theorem ExistenceTest.isKeyed_of_ofMembers? (members : List (String × Document))
    {item : ExistenceTest × Option Filter} (h : ExistenceTest.ofMembers? members = some item) :
    ∀ f, item.2 = some f → f.IsKeyed := by
  rw [ExistenceTest.ofMembers?] at h
  split at h
  · next condition _ _ hcondition _ =>
    obtain rfl := Option.some.inj h
    exact Filter.isKeyed_of_ofMember? members hcondition
  · simp at h
termination_by (sizeOf members, 1)

theorem ExistenceTest.isKeyed_of_ofFields? (fields : List Document)
    {item : ExistenceTest × Option Filter} (h : ExistenceTest.ofFields? fields = some item) :
    ∀ f, item.2 = some f → f.IsKeyed := by
  unfold ExistenceTest.ofFields? at h
  split at h
  · obtain rfl := Option.some.inj h
    simp
  · obtain ⟨c, hc, rfl⟩ := Option.map_eq_some_iff.mp h
    exact Filter.isKeyed_of_optionalOfDocument? _ hc
  · obtain ⟨c, hc, rfl⟩ := Option.map_eq_some_iff.mp h
    exact Filter.isKeyed_of_optionalOfDocument? _ hc
  · simp at h
termination_by (sizeOf fields, 0)

end

end EntityFilter
