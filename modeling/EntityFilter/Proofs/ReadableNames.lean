import EntityFilter.Proofs.CatalogPaths
import EntityFilter.Proofs.NameWords

/-!
# Catalogs with readable names

The name of a projection is made of names of the catalog, the words for what is computed, and lists
of fields with the words `by`, `order` and `desc` between them.  This file has the words of each of
these parts, and says when they can be read off (`Entity.IsReadable`).

Lists of fields are the difficult part, since their length is not written: for fields `sort` and
`sort_order`, the list `sort_order_id` has two readings.  Fields and the words between them are to
be a code, so that no field goes on with a word that some field begins with
(`Entity.IsReadable.window_inj`).  A look-up begins with a field of its own and has `by` behind it.
A field that ends in `by` does no harm there if what stands behind it cannot be the beginning of an
order (`Entity.IsReadable.lookUp_inj`).

The conditions are decidable, entity by entity.
-/

namespace EntityFilter

open Text (nameWords next?)

/-! ## Words of the parts of a name -/

namespace AggregateFunction

lemma nameWords_name (f : AggregateFunction) :
    nameWords f.name =
      match f with
      | sum => ["sum"]
      | avg => ["avg"]
      | min => ["min"]
      | max => ["max"]
      | count => ["count"]
      | countDistinct => ["count", "distinct"] := by
  cases f <;> decide

lemma append_nameWords_inj {f g : AggregateFunction} {xs ys : List String}
    (h : xs ++ nameWords f.name = ys ++ nameWords g.name) : xs = ys ∧ f = g := by
  rw [nameWords_name, nameWords_name] at h
  -- the last words tell the functions apart
  have hends := congrArg List.reverse h
  rw [List.reverse_append, List.reverse_append] at hends
  cases f <;> cases g <;> simp_all

end AggregateFunction

lemma WindowFunction.nameWords_name (f : WindowFunction) :
    nameWords f.name =
      match f with
      | rank => ["rank"]
      | denseRank => ["dense", "rank"]
      | rowNumber => ["row", "number"]
      | percentRank => ["percent", "rank"] := by
  cases f <;> decide

/-- The words that say what is aggregated and how. -/
def aggregateWords (field : Option String) (function : AggregateFunction) : List String :=
  (field.map nameWords).getD [] ++ nameWords function.name

lemma nameWords_aggregateName (field : Option String) (function : AggregateFunction) :
    nameWords (ProjectionKey.aggregateName field function) = aggregateWords field function := by
  cases field with
  | none => rfl
  | some field => exact Text.nameWords_append _ _

lemma aggregateWords_inj {field field' : Option String} {function function' : AggregateFunction}
    (h : aggregateWords field function = aggregateWords field' function') :
    field = field' ∧ function = function' := by
  obtain ⟨hfield, rfl⟩ := AggregateFunction.append_nameWords_inj h
  refine ⟨?_, rfl⟩
  cases field <;> cases field'
  · rfl
  · exact absurd hfield.symm (Text.nameWords_ne_nil _)
  · exact absurd hfield (Text.nameWords_ne_nil _)
  · exact congrArg some (Text.nameWords_injective hfield)

lemma TruncKind.name_injective : Function.Injective TruncKind.name := by
  intro a b h
  cases a <;> cases b <;> simp_all [TruncKind.name]

lemma DatePart.name_injective : Function.Injective DatePart.name := by
  intro a b h
  cases a <;> cases b <;> simp_all [DatePart.name]

namespace Document

lemma hexDigit_inj : ∀ a < 16, ∀ b < 16, Text.hexDigit a = Text.hexDigit b → a = b := by decide

/-- Numbers with the same digits are the same. -/
lemma eq_of_digits (count : Nat) {m n : Nat} (hm : m < Nat.pow 16 count)
    (hn : n < Nat.pow 16 count)
    (h : ∀ i < count, m / Nat.pow 16 i % 16 = n / Nat.pow 16 i % 16) : m = n := by
  induction count generalizing m n with
  | zero =>
    have hone : Nat.pow 16 0 = 1 := rfl
    omega
  | succ count ih =>
    have hpow : ∀ i, Nat.pow 16 (i + 1) = 16 * Nat.pow 16 i := fun i => Nat.mul_comm _ _
    have hlast : m % 16 = n % 16 := by
      have hfirst := h 0 (by omega)
      rwa [show Nat.pow 16 0 = 1 from rfl, Nat.div_one, Nat.div_one] at hfirst
    have hrest : m / 16 = n / 16 := by
      rw [hpow] at hm hn
      refine ih (Nat.div_lt_of_lt_mul hm) (Nat.div_lt_of_lt_mul hn) fun i hi => ?_
      rw [Nat.div_div_eq_div_mul, Nat.div_div_eq_div_mul, ← hpow]
      exact h (i + 1) (by omega)
    omega

lemma fingerprintText_injective : Function.Injective fingerprintText := by
  intro m n h
  have hdigits := List.map_inj_left.mp (String.ofList_injective h)
  refine UInt32.toNat_inj.mp (eq_of_digits 8 m.toNat_lt n.toNat_lt fun i hi => ?_)
  have hdigit := hexDigit_inj _ (Nat.mod_lt _ (by decide)) _ (Nat.mod_lt _ (by decide))
    (hdigits (7 - i) (List.mem_range.mpr (by omega)))
  have hplace : 7 - (7 - i) = i := by omega
  rwa [hplace] at hdigit

lemma nameWords_fingerprintText (n : UInt32) :
    nameWords (fingerprintText n) = [fingerprintText n] := by
  have hdigit : ∀ a < 16, Text.hexDigit a ≠ '_' := by decide
  refine Text.nameWords_eq_singleton fun hmem => ?_
  rw [fingerprintText, String.toList_ofList] at hmem
  obtain ⟨i, -, hi⟩ := List.mem_map.mp hmem
  exact hdigit _ (Nat.mod_lt _ (by decide)) hi

lemma fingerprintText_ne_empty (n : UInt32) : fingerprintText n ≠ "" := by
  intro h
  have hlength := congrArg String.length h
  simp [fingerprintText] at hlength

end Document

/-! ### Fields in an order -/

namespace OrderKey

/-- The names that stand for a key. -/
def signs (k : OrderKey) : List String := k.field :: if k.descending then ["desc"] else []

lemma nameWords_fragment (k : OrderKey) : nameWords k.fragment = k.signs.flatMap nameWords := by
  unfold fragment signs
  split
  · have hending : "_desc" = "_" ++ "desc" := rfl
    rw [Text.nameWords_append_ending hending]
    simp
  · simp

lemma nameWords_fragments {ks : List OrderKey} (h : ks ≠ []) :
    nameWords (fragments ks) = (ks.flatMap signs).flatMap nameWords := by
  have hfragments : ks.map fragment ≠ [] := by simpa using h
  rw [fragments, Text.nameWords_join hfragments, List.flatMap_map, List.flatMap_assoc]
  exact congrArg (List.flatMap · ks) (funext nameWords_fragment)

/-- Keys are read off the names that stand for them, unless a field has the name of a direction. -/
lemma flatMap_signs_inj {ks ks' : List OrderKey} (hks : ∀ k ∈ ks, k.field ≠ "desc")
    (hks' : ∀ k ∈ ks', k.field ≠ "desc") (h : ks.flatMap signs = ks'.flatMap signs) : ks = ks' := by
  induction ks generalizing ks' with
  | nil =>
    cases ks' with
    | nil => rfl
    | cons k' ks' => simp [signs] at h
  | cons k ks ih =>
    cases ks' with
    | nil => simp [signs] at h
    | cons k' ks' =>
      rw [List.forall_mem_cons] at hks hks'
      obtain ⟨field, descending⟩ := k
      obtain ⟨field', descending'⟩ := k'
      -- behind a field there is its direction, another field or the end
      have hnext : ∀ {ks : List OrderKey}, (∀ k ∈ ks, k.field ≠ "desc") →
          ∀ rest, "desc" :: rest ≠ ks.flatMap signs := by
        intro ks hks rest
        cases ks with
        | nil => simp
        | cons k ks =>
          intro heq
          exact hks k List.mem_cons_self (List.cons.inj heq).1.symm
      obtain ⟨rfl, hrest⟩ := List.cons.inj h
      cases descending <;> cases descending'
      · rw [ih hks.2 hks'.2 hrest]
      · exact absurd hrest.symm (hnext hks.2 _)
      · exact absurd hrest (hnext hks'.2 _)
      · rw [ih hks.2 hks'.2 (List.cons.inj hrest).2]

end OrderKey

/-- The names that stand for keys behind a word, if there are any keys. -/
def OrderKey.signsBehind (sign : String) (ks : List OrderKey) : List String :=
  if ks.isEmpty then [] else sign :: ks.flatMap OrderKey.signs

lemma OrderKey.nameWords_signsBehind {sign : String} (hsign : nameWords sign = [sign])
    (ks : List OrderKey) : (signsBehind sign ks).flatMap nameWords =
      if ks.isEmpty then [] else sign :: (ks.flatMap signs).flatMap nameWords := by
  unfold signsBehind
  split
  · rfl
  · rw [List.flatMap_cons, hsign]
    rfl

lemma OrderKey.signsBehind_inj {sign : String} {ks ks' : List OrderKey}
    (hks : ∀ k ∈ ks, k.field ≠ "desc") (hks' : ∀ k ∈ ks', k.field ≠ "desc")
    (h : signsBehind sign ks = signsBehind sign ks') : ks = ks' := by
  refine flatMap_signs_inj hks hks' ?_
  cases ks with
  | nil =>
    cases ks' with
    | nil => rfl
    | cons k' ks' => cases h
  | cons k ks =>
    cases ks' with
    | nil => cases h
    | cons k' ks' => exact (List.cons.inj h).2

namespace WindowSpec

/-- The names that stand for a specification, behind the word for a partition. -/
def signs (w : WindowSpec) : List String :=
  w.partitionBy ++ OrderKey.signsBehind "order" w.orderBy

/-- The word for a partition, if there is one. -/
def opening (w : WindowSpec) : List String := if w.partitionBy.isEmpty then [] else ["by"]

lemma nameWords_append_suffix (name : String) (w : WindowSpec) :
    nameWords (name ++ w.suffix) =
      nameWords name ++ (w.opening ++ w.signs.flatMap nameWords) := by
  have hby : "_by_" = "_" ++ "by" ++ "_" := rfl
  have horder : "_order_" = "_" ++ "order" ++ "_" := rfl
  have hopening : (if w.partitionBy.isEmpty then [] else "by" :: w.partitionBy).flatMap nameWords =
      w.opening ++ w.partitionBy.flatMap nameWords := by
    have hsign : nameWords "by" = ["by"] := by decide
    unfold opening
    cases w.partitionBy <;> simp [hsign]
  rw [suffix, ← String.append_assoc,
    Text.nameWords_append_section horder fun h =>
      OrderKey.nameWords_fragments (List.isEmpty_eq_false_iff.mp h),
    Text.nameWords_append_section hby fun h =>
      Text.nameWords_join (List.isEmpty_eq_false_iff.mp h),
    hopening, signs, List.flatMap_append, List.append_assoc, List.append_assoc]
  rfl

/-- The word for a partition is told apart from the word for an order. -/
lemma opening_append_inj {w w' : WindowSpec}
    (h : w.opening ++ w.signs.flatMap nameWords = w'.opening ++ w'.signs.flatMap nameWords) :
    w.signs.flatMap nameWords = w'.signs.flatMap nameWords := by
  have hby : ∀ {w : WindowSpec}, w.partitionBy ≠ [] →
      (w.opening ++ w.signs.flatMap nameWords).head? = some "by" := by
    intro w hne
    simp [opening, hne]
  have hnot : ∀ {w : WindowSpec}, w.partitionBy = [] →
      (w.opening ++ w.signs.flatMap nameWords).head? ≠ some "by" := by
    intro w hempty
    have hsign : nameWords "order" = ["order"] := by decide
    simp only [opening, signs, hempty, List.isEmpty_nil, if_true, List.nil_append,
      OrderKey.nameWords_signsBehind hsign]
    split <;> simp
  by_cases hempty : w.partitionBy = [] <;> by_cases hempty' : w'.partitionBy = []
  · simpa [opening, hempty, hempty'] using h
  · exact absurd (h ▸ hby hempty') (hnot hempty)
  · exact absurd (h ▸ hby hempty) (hnot hempty')
  · simpa [opening, hempty, hempty'] using h

/-- A specification is read off the names that stand for it, unless a field has the name of one of
the signs. -/
lemma signs_inj {w w' : WindowSpec} (hw : ∀ name ∈ w.partitionBy, name ≠ "order")
    (hw' : ∀ name ∈ w'.partitionBy, name ≠ "order") (hk : ∀ k ∈ w.orderBy, k.field ≠ "desc")
    (hk' : ∀ k ∈ w'.orderBy, k.field ≠ "desc") (h : w.signs = w'.signs) : w = w' := by
  have hpartition : ∀ {w : WindowSpec}, (∀ name ∈ w.partitionBy, name ≠ "order") →
      w.signs.takeWhile (· ≠ "order") = w.partitionBy := by
    intro w hw
    have horder : (OrderKey.signsBehind "order" w.orderBy).takeWhile (· ≠ "order") = [] := by
      unfold OrderKey.signsBehind
      split <;> simp
    rw [signs, List.takeWhile_append_of_pos (by simpa using hw), horder, List.append_nil]
  have hsame : w.partitionBy = w'.partitionBy := by
    rw [← hpartition hw, ← hpartition hw', h]
  have horder :
      OrderKey.signsBehind "order" w.orderBy = OrderKey.signsBehind "order" w'.orderBy := by
    rw [signs, signs, hsame] at h
    exact List.append_cancel_left h
  have hkeys : w.orderBy = w'.orderBy := OrderKey.signsBehind_inj hk hk' horder
  cases w
  cases w'
  simp_all

end WindowSpec

/-! ## Catalogs with readable names -/

namespace Entity

/-- The names of fields and relations. -/
def names (e : Entity) : List String := e.fields.keys ++ e.relations.keys

/-- The names of relations to many rows. -/
def manyNames (e : Entity) : List String :=
  (e.relations.entries.filter fun p => p.2.isToMany).map Prod.fst

/-- The names of fields that say when. -/
def temporalNames (e : Entity) : List String :=
  (e.fields.entries.filter fun p => p.2.kind.isTemporal).map Prod.fst

/-- The names behind which something computed is named. -/
def headNames (e : Entity) : List String := e.manyNames ++ e.temporalNames

/-- What lists of fields are made of: fields, and the words between them. -/
def signs (e : Entity) : List String := ["order", "desc"] ++ e.fields.keys

/-- The names of an entity can be read where they stand in the name of a projection. -/
structure IsReadable (e : Entity) : Prop where
  /-- Names have no underscore at an end and no two in a row. -/
  words : ∀ name ∈ e.names, "" ∉ nameWords name
  /-- No name looks like an aggregate or a look-up of related rows. -/
  apart : ∀ relation ∈ e.manyNames, ∀ name ∈ e.headNames,
    ∀ w ∈ next? (nameWords relation) (nameWords name), w ∉ ["agg", "cond", "subquery"]
  /-- No name looks like a rank. -/
  window : ∀ name ∈ e.headNames,
    ∀ w ∈ next? ["window"] (nameWords name), w ∉ ["rank", "dense", "row", "percent"]
  /-- Lists of fields are read off their words. -/
  code : Text.IsCode e.signs
  /-- No field is called like a word between fields. -/
  field : ∀ name ∈ e.fields.keys, name ∉ ["order", "desc"]
  /-- No field looks like another one that is looked up by an order. -/
  lookUp : ∀ a ∈ e.fields.keys, ∀ b ∈ e.fields.keys,
    ∀ w ∈ next? (nameWords a ++ ["by"]) (nameWords b ++ ["by"]), ∀ d ∈ e.fields.keys,
      (nameWords d).head? ≠ some w

instance (e : Entity) : Decidable e.IsReadable :=
  decidable_of_iff
    ((∀ name ∈ e.names, "" ∉ nameWords name) ∧
      (∀ relation ∈ e.manyNames, ∀ name ∈ e.headNames,
        ∀ w ∈ next? (nameWords relation) (nameWords name), w ∉ ["agg", "cond", "subquery"]) ∧
      (∀ name ∈ e.headNames,
        ∀ w ∈ next? ["window"] (nameWords name), w ∉ ["rank", "dense", "row", "percent"]) ∧
      Text.IsCode e.signs ∧ (∀ name ∈ e.fields.keys, name ∉ ["order", "desc"]) ∧
      ∀ a ∈ e.fields.keys, ∀ b ∈ e.fields.keys,
        ∀ w ∈ next? (nameWords a ++ ["by"]) (nameWords b ++ ["by"]), ∀ d ∈ e.fields.keys,
          (nameWords d).head? ≠ some w)
    ⟨fun ⟨h₁, h₂, h₃, h₄, h₅, h₆⟩ => ⟨h₁, h₂, h₃, h₄, h₅, h₆⟩,
      fun ⟨h₁, h₂, h₃, h₄, h₅, h₆⟩ => ⟨h₁, h₂, h₃, h₄, h₅, h₆⟩⟩

variable {e : Entity} {name : String}

lemma mem_keys_of_hasField (h : e.hasField name) : name ∈ e.fields.keys :=
  Entries.contains_iff_mem_keys.mp h

lemma hasField_of_field? {f : Field} (h : e.field? name = some f) : e.hasField name :=
  Option.isSome_iff_exists.mpr ⟨f, h⟩

lemma mem_names_of_hasField (h : e.hasField name) : name ∈ e.names :=
  List.mem_append_left _ (mem_keys_of_hasField h)

lemma mem_names_of_relation? {r : Relation} (h : e.relation? name = some r) : name ∈ e.names :=
  List.mem_append_right _ (List.mem_map.mpr ⟨_, Entries.mem_of_get? h, rfl⟩)

lemma mem_manyNames {r : Relation} (h : e.relation? name = some r) (hr : r.isToMany) :
    name ∈ e.manyNames :=
  List.mem_map.mpr ⟨_, List.mem_filter.mpr ⟨Entries.mem_of_get? h, hr⟩, rfl⟩

lemma mem_temporalNames {f : Field} (h : e.field? name = some f) (hf : f.kind.isTemporal) :
    name ∈ e.temporalNames :=
  List.mem_map.mpr ⟨_, List.mem_filter.mpr ⟨Entries.mem_of_get? h, hf⟩, rfl⟩

lemma mem_names_of_mem_headNames (h : name ∈ e.headNames) : name ∈ e.names := by
  rcases List.mem_append.mp h with h | h
  · obtain ⟨p, hp, rfl⟩ := List.mem_map.mp h
    exact List.mem_append_right _ (List.mem_map_of_mem (List.mem_filter.mp hp).1)
  · obtain ⟨p, hp, rfl⟩ := List.mem_map.mp h
    exact List.mem_append_left _ (List.mem_map_of_mem (List.mem_filter.mp hp).1)

end Entity

namespace Entity.IsReadable

variable {e : Entity} {name : String}

lemma ne_of_hasField (he : e.IsReadable) (h : e.hasField name) {sign : String}
    (hsign : sign ∈ ["order", "desc"]) : name ≠ sign := by
  rintro rfl
  exact he.field name (Entity.mem_keys_of_hasField h) hsign

lemma empty_notMem_of_mem_signs (he : e.IsReadable) (h : name ∈ e.signs) :
    "" ∉ nameWords name := by
  have hsigns : ∀ sign ∈ ["order", "desc"], "" ∉ nameWords sign := by decide
  rcases List.mem_append.mp h with h | h
  · exact hsigns name h
  · exact he.words name (List.mem_append_left _ h)

end Entity.IsReadable

lemma Entity.mem_signs_of_hasField {e : Entity} {name : String} (h : e.hasField name) :
    name ∈ e.signs :=
  List.mem_append_right _ (Entity.mem_keys_of_hasField h)

lemma OrderKey.mem_signs_of_mem_flatMap {e : Entity} {ks : List OrderKey}
    (hks : ∀ k ∈ ks, e.hasField k.field) : ∀ name ∈ ks.flatMap signs, name ∈ e.signs := by
  intro name hname
  obtain ⟨k, hk, hname⟩ := List.mem_flatMap.mp hname
  rw [signs, List.mem_cons, List.mem_ite_nil_right, List.mem_singleton] at hname
  rcases hname with rfl | ⟨-, rfl⟩
  · exact Entity.mem_signs_of_hasField (hks k hk)
  · exact List.mem_append_left _ (by decide)

lemma WindowSpec.mem_signs_of_mem_signs {e : Entity} {w : WindowSpec}
    (hpartition : ∀ name ∈ w.partitionBy, e.hasField name)
    (horder : ∀ k ∈ w.orderBy, e.hasField k.field) : ∀ name ∈ w.signs, name ∈ e.signs := by
  intro name hname
  rcases List.mem_append.mp hname with hname | hname
  · exact Entity.mem_signs_of_hasField (hpartition name hname)
  · rw [OrderKey.signsBehind, List.mem_ite_nil_left, List.mem_cons] at hname
    rcases hname.2 with rfl | hname
    · exact List.mem_append_left _ (by decide)
    · exact OrderKey.mem_signs_of_mem_flatMap horder name hname

namespace Entity.IsReadable

variable {e : Entity} {field field' : String} {ks ks' : List OrderKey}

lemma orderKeys_inj (he : e.IsReadable) (hks : ∀ k ∈ ks, e.hasField k.field)
    (hks' : ∀ k ∈ ks', e.hasField k.field)
    (h : (ks.flatMap OrderKey.signs).flatMap nameWords =
      (ks'.flatMap OrderKey.signs).flatMap nameWords) : ks = ks' :=
  OrderKey.flatMap_signs_inj (fun k hk => he.ne_of_hasField (hks k hk) (by decide))
    (fun k hk => he.ne_of_hasField (hks' k hk) (by decide))
    (he.code.flatMap_nameWords_inj (OrderKey.mem_signs_of_mem_flatMap hks)
      (OrderKey.mem_signs_of_mem_flatMap hks') h)

/-- A field with an order behind it is not the beginning of another field. -/
lemma lookUp_not_next (he : e.IsReadable) (hfield : e.hasField field) (hfield' : e.hasField field')
    (hks : ∀ k ∈ ks, e.hasField k.field)
    (h : nameWords field ++ (OrderKey.signsBehind "by" ks).flatMap nameWords =
      nameWords field' ++ (OrderKey.signsBehind "by" ks').flatMap nameWords) {w : String}
    (hnext : next? (nameWords field) (nameWords field') = some w)
    (hhead : ((OrderKey.signsBehind "by" ks).flatMap nameWords).head? = some w) : False := by
  obtain ⟨between, hbetween⟩ := Text.next?_eq_some.mp hnext
  rw [hbetween, List.append_assoc, OrderKey.nameWords_signsBehind (by decide)] at h
  rw [OrderKey.nameWords_signsBehind (by decide)] at hhead
  cases ks with
  | nil => simp at hhead
  | cons k ks =>
    obtain rfl : "by" = w := Option.some.inj hhead
    have hkeys := (List.cons.inj (List.append_cancel_left h)).2
    have hk := hks k List.mem_cons_self
    obtain ⟨first, others, hfirst⟩ := List.exists_cons_of_ne_nil (Text.nameWords_ne_nil k.field)
    -- the first word of the order is the next one of the other field, or the sign behind it
    have hword : next? (nameWords field ++ ["by"]) (nameWords field' ++ ["by"]) = some first := by
      simp only [List.flatMap_cons, OrderKey.signs, hfirst, List.cons_append] at hkeys
      cases between with
      | nil =>
        rw [OrderKey.nameWords_signsBehind (by decide)] at hkeys
        cases ks' with
        | nil => cases hkeys
        | cons k' ks' =>
          obtain rfl := (List.cons.inj hkeys).1
          exact Text.next?_eq_some.mpr ⟨[], by simp [hbetween]⟩
      | cons word between =>
        obtain rfl := (List.cons.inj hkeys).1
        exact Text.next?_eq_some.mpr ⟨between ++ ["by"], by simp [hbetween]⟩
    exact he.lookUp field (Entity.mem_keys_of_hasField hfield) field'
      (Entity.mem_keys_of_hasField hfield') first hword k.field (Entity.mem_keys_of_hasField hk)
      (by rw [hfirst]; rfl)

lemma empty_notMem_lookUp (he : e.IsReadable) (hfield : e.hasField field)
    (hks : ∀ k ∈ ks, e.hasField k.field) :
    "" ∉ (field :: OrderKey.signsBehind "by" ks).flatMap nameWords := by
  have hfirst := he.words field (Entity.mem_names_of_hasField hfield)
  have horder : "" ∉ (ks.flatMap OrderKey.signs).flatMap nameWords := by
    intro hmem
    obtain ⟨sign, hsign, hempty⟩ := List.mem_flatMap.mp hmem
    exact he.empty_notMem_of_mem_signs (OrderKey.mem_signs_of_mem_flatMap hks sign hsign) hempty
  rw [List.flatMap_cons, OrderKey.nameWords_signsBehind (by decide), List.mem_append, not_or]
  refine ⟨hfirst, ?_⟩
  split
  · exact List.not_mem_nil
  · exact List.not_mem_cons_of_ne_of_not_mem (by decide) horder

lemma lookUp_inj (he : e.IsReadable) (hfield : e.hasField field) (hfield' : e.hasField field')
    (hks : ∀ k ∈ ks, e.hasField k.field) (hks' : ∀ k ∈ ks', e.hasField k.field)
    (h : (field :: OrderKey.signsBehind "by" ks).flatMap nameWords =
      (field' :: OrderKey.signsBehind "by" ks').flatMap nameWords) :
    field = field' ∧ ks = ks' := by
  rw [List.flatMap_cons, List.flatMap_cons] at h
  rcases Text.append_eq_cases h with ⟨hname, hrest⟩ | ⟨w, hw, hhead⟩ | ⟨w, hw, hhead⟩
  · refine ⟨Text.nameWords_injective hname, he.orderKeys_inj hks hks' ?_⟩
    rw [OrderKey.nameWords_signsBehind (by decide),
      OrderKey.nameWords_signsBehind (by decide)] at hrest
    cases ks <;> cases ks' <;> simp_all
  · exact absurd hhead (he.lookUp_not_next hfield hfield' hks h hw)
  · exact absurd hhead (he.lookUp_not_next hfield' hfield hks' h.symm hw)

lemma window_inj (he : e.IsReadable) {function function' : WindowFunction}
    {spec spec' : WindowSpec} (hpartition : ∀ name ∈ spec.partitionBy, e.hasField name)
    (horder : ∀ k ∈ spec.orderBy, e.hasField k.field)
    (hpartition' : ∀ name ∈ spec'.partitionBy, e.hasField name)
    (horder' : ∀ k ∈ spec'.orderBy, e.hasField k.field)
    (h : nameWords function.name ++ (spec.opening ++ spec.signs.flatMap nameWords) =
      nameWords function'.name ++ (spec'.opening ++ spec'.signs.flatMap nameWords)) :
    function = function' ∧ spec = spec' := by
  have hfunction : function = function' ∧ spec.opening ++ spec.signs.flatMap nameWords =
      spec'.opening ++ spec'.signs.flatMap nameWords := by
    rw [WindowFunction.nameWords_name, WindowFunction.nameWords_name] at h
    cases function <;> cases function' <;> simp_all
  have hsigns := he.code.flatMap_nameWords_inj
    (WindowSpec.mem_signs_of_mem_signs hpartition horder)
    (WindowSpec.mem_signs_of_mem_signs hpartition' horder')
    (WindowSpec.opening_append_inj hfunction.2)
  refine ⟨hfunction.1, WindowSpec.signs_inj ?_ ?_ ?_ ?_ hsigns⟩
  · exact fun name hname => he.ne_of_hasField (hpartition name hname) (by decide)
  · exact fun name hname => he.ne_of_hasField (hpartition' name hname) (by decide)
  · exact fun k hk => he.ne_of_hasField (horder k hk) (by decide)
  · exact fun k hk => he.ne_of_hasField (horder' k hk) (by decide)

end Entity.IsReadable

/-- The names of every entity can be read. -/
def Catalog.IsReadable (c : Catalog) : Prop := ∀ e ∈ c.entities.values, e.IsReadable

instance (c : Catalog) : Decidable c.IsReadable := by
  unfold Catalog.IsReadable
  infer_instance

/-- A path goes through names of the catalog. -/
lemma Catalog.IsReadable.along {c : Catalog} (hc : c.IsReadable) {path : List String}
    {e x : Entity} (he : e ∈ c.entities.values) (h : c.along? e path = some x) :
    x ∈ c.entities.values ∧ ∀ name ∈ path, "" ∉ nameWords name := by
  induction path generalizing e with
  | nil =>
    obtain rfl := Option.some.inj h
    exact ⟨he, by simp⟩
  | cons name path ih =>
    obtain ⟨r, next, hr, hpath⟩ := along?_cons_eq_some.mp h
    obtain ⟨hrelation, hnext⟩ := resolve?_eq_some.mp hr
    obtain ⟨hx, hrest⟩ := ih (mem_values_of_entity? hnext) hpath
    refine ⟨hx, List.forall_mem_cons.mpr ⟨?_, hrest⟩⟩
    exact (hc e he).words name (Entity.mem_names_of_relation? hrelation)

end EntityFilter
