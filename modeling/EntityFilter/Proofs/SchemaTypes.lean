import EntityFilter.Proofs.CatalogPaths
import EntityFilter.Proofs.Offers

/-!
# The types of a schema

A schema is made depth first: the filter on an entity is defined, then the filters on the entities
that its relations lead to, one relation deeper, and a name that is taken is passed over.  A name
may be taken by a filter whose own needs are still being defined; but such a filter stands less
deep, so whatever is as deep as the one being defined is complete (`FilterLanguage.ClosedFrom`).

Types are told apart by their names alone.  The name of a filter determines the entity and the depth
(`filterName_inj`), and no other input object has a name of this form (`Need.Plain`).  So every
filter that relations lead to, as far as the settings allow, is in the schema under its name, with
all that it offers (`FilterLanguage.get?_of_reaches`).
-/

namespace EntityFilter

/-! ## Names of types -/

/-- The characters of a kind at the end of a text. -/
lemma takeWhile_reverse_append {p : Char → Bool} {xs ds : List Char} (hds : ∀ d ∈ ds, p d)
    (hxs : ∀ x ∈ xs.getLast?, ¬p x) : (xs ++ ds).reverse.takeWhile p = ds.reverse := by
  have hstart : xs.reverse.takeWhile p = [] := by
    rcases hlist : xs.reverse with _ | ⟨x, rest⟩
    · rfl
    · have hlast : xs.getLast? = some x := by
        rw [List.getLast?_eq_head?_reverse, hlist]
        rfl
      exact List.takeWhile_cons_of_neg (hxs x hlast)
  rw [List.reverse_append, List.takeWhile_append_of_pos (by simpa using hds), hstart,
    List.append_nil]

/-- A text and what follows it are told apart if only the latter ends in characters of a kind. -/
lemma append_inj_of_last {p : Char → Bool} {xs ys ds es : List Char}
    (hds : ∀ d ∈ ds, p d) (hes : ∀ e ∈ es, p e)
    (hxs : ∀ x ∈ xs.getLast?, ¬p x) (hys : ∀ y ∈ ys.getLast?, ¬p y)
    (h : xs ++ ds = ys ++ es) : xs = ys ∧ ds = es := by
  have hends : ds.reverse = es.reverse := by
    rw [← takeWhile_reverse_append hds hxs, h, takeWhile_reverse_append hes hys]
  obtain rfl := List.reverse_injective hends
  exact ⟨List.append_cancel_right h, rfl⟩

lemma isDigit_of_mem_toString {n : Nat} : ∀ d ∈ (toString n).toList, d.isDigit := by
  intro d hd
  rw [Nat.toString_eq_ofList_toDigits, String.toList_ofList] at hd
  exact Nat.isDigit_of_mem_toDigits (by decide) (by decide) hd

lemma toString_nat_inj {m n : Nat} (h : toString m = toString n) : m = n := by
  rw [Nat.toString_eq_ofList_toDigits, Nat.toString_eq_ofList_toDigits] at h
  have hdigits := congrArg String.toList h
  rw [String.toList_ofList, String.toList_ofList] at hdigits
  rw [← Nat.ofDigitChars_ten_toDigits (n := m), hdigits, Nat.ofDigitChars_ten_toDigits]

/-- What stands behind the name of an entity, the number aside. -/
def filterEnding (depth : Nat) : String := "WhereInput" ++ if depth = 0 then "" else "Depth"

/-- The number of relations in a name. -/
def depthDigits (depth : Nat) : String := if depth = 0 then "" else toString depth

lemma toList_filterName (scope entity : String) (depth : Nat) :
    (filterName scope entity depth).toList =
      scope.toList ++ entity.toList ++ (filterEnding depth).toList ++
        (depthDigits depth).toList := by
  have hnumber : s!"Depth{depth}" = "Depth" ++ toString depth := rfl
  unfold filterName filterEnding depthDigits
  rw [hnumber]
  by_cases h : depth = 0
  · simp [h]
  · simp [h, String.toList_append]

lemma isDigit_of_mem_depthDigits {depth : Nat} : ∀ d ∈ (depthDigits depth).toList, d.isDigit := by
  intro d hd
  unfold depthDigits at hd
  split at hd
  · simp at hd
  · exact isDigit_of_mem_toString d hd

/-- The number stands behind a letter. -/
lemma getLast?_append_filterEnding (xs : List Char) (depth : Nat) :
    ∀ x ∈ (xs ++ (filterEnding depth).toList).getLast?, x = 't' ∨ x = 'h' := by
  intro x hx
  have hlast : (filterEnding depth).toList.getLast? = some 't' ∨
      (filterEnding depth).toList.getLast? = some 'h' := by
    unfold filterEnding
    by_cases h : depth = 0
    · exact .inl (by rw [if_pos h]; decide)
    · exact .inr (by rw [if_neg h]; decide)
  rw [List.getLast?_append] at hx
  rcases hlast with h | h
  · rw [h, Option.some_or, Option.mem_some_iff] at hx
    exact .inl hx.symm
  · rw [h, Option.some_or, Option.mem_some_iff] at hx
    exact .inr hx.symm

/-- **The name of a filter determines the entity and the depth.** -/
theorem filterName_inj {scope a b : String} {i j : Nat}
    (h : filterName scope a i = filterName scope b j) : a = b ∧ i = j := by
  have hletter : ∀ {xs : List Char} {depth : Nat},
      ∀ x ∈ (xs ++ (filterEnding depth).toList).getLast?, ¬x.isDigit := by
    intro xs depth x hx
    rcases getLast?_append_filterEnding xs depth x hx with rfl | rfl <;> decide
  have hlists := congrArg String.toList h
  rw [toList_filterName, toList_filterName] at hlists
  obtain ⟨hnames, hdigits⟩ := append_inj_of_last isDigit_of_mem_depthDigits
    isDigit_of_mem_depthDigits hletter hletter hlists
  have hdepth : i = j := by
    rw [String.toList_inj] at hdigits
    unfold depthDigits at hdigits
    have hne : ∀ n : Nat, toString n ≠ "" := by
      intro n hn
      have hlist := congrArg String.toList hn
      rw [Nat.toString_eq_ofList_toDigits, String.toList_ofList] at hlist
      exact Nat.toDigits_ne_nil hlist
    split at hdigits <;> split at hdigits
    · omega
    · exact absurd hdigits.symm (hne j)
    · exact absurd hdigits (hne i)
    · exact toString_nat_inj hdigits
  obtain rfl := hdepth
  rw [List.append_assoc, List.append_assoc] at hnames
  exact ⟨String.toList_inj.mp (List.append_cancel_right (List.append_cancel_left hnames)), rfl⟩

/-- A name that is neither that of an entity nor of a filter: it ends in a letter that these do not
end in. -/
def IsPlainName (name : String) : Prop :=
  name.toList.getLast? = some 'r' ∨ name.toList.getLast? = some 'n'

lemma IsPlainName.ne_filterName {name : String} (h : IsPlainName name) (scope entity : String)
    (depth : Nat) : name ≠ filterName scope entity depth := by
  rintro rfl
  have hlast : ∀ x ∈ (filterName scope entity depth).toList.getLast?,
      x = 't' ∨ x = 'h' ∨ x.isDigit := by
    intro x hx
    rw [toList_filterName, List.getLast?_append] at hx
    rcases hdigits : (depthDigits depth).toList.getLast? with _ | d
    · rw [hdigits, Option.none_or] at hx
      exact (getLast?_append_filterEnding _ depth x hx).imp_right .inl
    · rw [hdigits, Option.some_or, Option.mem_some_iff] at hx
      subst hx
      exact .inr (.inr (isDigit_of_mem_depthDigits d (List.mem_of_getLast? hdigits)))
  rcases h with h | h
  · exact absurd (hlast 'r' h) (by decide)
  · exact absurd (hlast 'n' h) (by decide)

lemma isPlainName_append (name ending : String) (h : IsPlainName ending) :
    IsPlainName (name ++ ending) := by
  rw [IsPlainName, String.toList_append, List.getLast?_append]
  rcases h with h | h
  · exact .inl (by rw [h]; rfl)
  · exact .inr (by rw [h]; rfl)

/-! ## Fields of objects -/

namespace InputObject

/-- The object of fields has a field under each of their names. -/
lemma isSome_field?_ofFields {name : String} {fields : List InputField} {f : InputField}
    (hf : f ∈ fields) : ((ofFields name fields).field? f.name).isSome := by
  have hfold : ∀ (pairs : List (String × InputField)) (m : OrderedMap String InputField),
      (m.get? f.name).isSome ∨ (f.name, f) ∈ pairs →
      ((pairs.foldl (fun m p => m.insert p.1 p.2) m).get? f.name).isSome := by
    intro pairs
    induction pairs with
    | nil =>
      intro m h
      simpa using h
    | cons p pairs ih =>
      intro m h
      refine ih _ ?_
      by_cases hname : p.1 = f.name
      · rw [← hname, OrderedMap.get?_insert_self]
        exact .inl rfl
      · rw [OrderedMap.get?_insert_of_ne _ (Ne.symm hname)]
        refine h.imp_right fun hmem => (List.mem_cons.mp hmem).resolve_left ?_
        rintro rfl
        exact hname rfl
  exact hfold _ _ (.inr (List.mem_map.mpr ⟨f, hf, rfl⟩))

end InputObject

/-! ## What has to be defined -/

/-- A need that is no filter. -/
def Need.IsPlain : Need → Prop
  | .object o => IsPlainName o.name
  | .filter _ => False

namespace FieldKind

lemma isPlainName_operatorsName (kind : FieldKind) : IsPlainName kind.operatorsName := by
  cases kind with
  | array element =>
    show IsPlainName "ArrayFilter"
    exact .inl (by decide)
  | _ => exact .inl (by decide)

lemma eq_of_mem_operatorsDefinitions {kind : FieldKind} {o : InputObject}
    (h : o ∈ kind.operatorsDefinitions) : o = int.operatorsObject ∨ o = kind.operatorsObject := by
  unfold operatorsDefinitions at h
  rcases List.mem_append.mp h with h | h
  · split at h
    · exact .inl (List.mem_singleton.mp h)
    · exact absurd h List.not_mem_nil
  · exact .inr (List.mem_singleton.mp h)

lemma isPlainName_of_mem_operatorsDefinitions {kind : FieldKind} {o : InputObject}
    (h : o ∈ kind.operatorsDefinitions) : IsPlainName o.name := by
  rcases eq_of_mem_operatorsDefinitions h with rfl | rfl
  · exact isPlainName_operatorsName .int
  · exact isPlainName_operatorsName kind

lemma isPlainName_truncName (kind : FieldKind) : IsPlainName kind.truncName := by
  unfold truncName
  split <;> exact .inl (by decide)

end FieldKind

/-- An offer that needs no filter. -/
def Offer.IsPlain (o : Offer) : Prop := ∀ need ∈ o.needs, need.IsPlain

lemma Offer.isPlain_ofObjects {name : String} {type : InputType} {objects : List InputObject}
    {description : Option String} (h : ∀ o ∈ objects, IsPlainName o.name) :
    (Offer.ofObjects name type objects description).IsPlain := by
  intro need hneed
  obtain ⟨o, ho, rfl⟩ := List.mem_map.mp hneed
  exact h o ho

/-- An offer of a list of objects, the last of which is referred to. -/
lemma Offer.isPlain_ofObjects_append {name : String} {type : InputType} {objects : List InputObject}
    {last : InputObject} (h : ∀ o ∈ objects, IsPlainName o.name) (hlast : IsPlainName last.name) :
    (Offer.ofObjects name type (objects ++ [last])).IsPlain := by
  refine isPlain_ofObjects fun o ho => ?_
  rcases List.mem_append.mp ho with ho | ho
  · exact h o ho
  · obtain rfl := List.mem_singleton.mp ho
    exact hlast

lemma Offer.isPlain_operators (name : String) (kind : FieldKind) (description : Option String) :
    (Offer.operators name kind description).IsPlain :=
  isPlain_ofObjects fun _ => FieldKind.isPlainName_of_mem_operatorsDefinitions

lemma isPlainName_of_mem_numbers {o : InputObject} (h : o ∈ InputObject.numbers) :
    IsPlainName o.name := by
  rcases List.mem_append.mp h with h | h <;>
    exact FieldKind.isPlainName_of_mem_operatorsDefinitions h

lemma isPlainName_conditionalAggregate (filter : String) :
    IsPlainName (InputObject.conditionalAggregate filter).name :=
  isPlainName_append _ _ (.inl (by decide))

namespace FilterLanguage

variable {l : FilterLanguage} {e target : Entity} {depth : Nat}

/-- Of what an offer for a condition on related rows needs, only the condition is a filter. -/
lemma need_of_mem_conditionalOffer {name : String} {need : Need}
    (h : need ∈ (l.conditionalOffer name target (depth + 1)).needs) :
    need.IsPlain ∨ need = .filter target := by
  rcases List.mem_cons.mp h with rfl | h
  · exact .inr rfl
  · have hname := isPlainName_conditionalAggregate (l.nameOf target (depth + 1))
    have hplain : (Offer.ofObjects name (.scalar .json) (InputObject.numbers ++
        [.conditionalAggregate (l.nameOf target (depth + 1))])).IsPlain :=
      Offer.isPlain_ofObjects_append (fun _ => isPlainName_of_mem_numbers) hname
    exact .inl (hplain need h)

/-- **What the filter on an entity needs**: plain objects, and the filters on the entities that its
relations lead to, if they may stand there. -/
theorem need_of_mem_needs {need : Need} (h : need ∈ l.needs e depth) :
    need.IsPlain ∨ ∃ target, need = .filter target ∧ depth + 1 < l.maxDepth ∧
      ∃ r ∈ e.relations.values, l.catalog.entity? r.target = some target := by
  obtain ⟨o, ho, hneed⟩ := List.mem_flatMap.mp h
  have hnone : ∀ o ∈ ([] : List InputObject), IsPlainName o.name := by simp
  cases mem_offers_iff.mp ho with
  | stored | identifiers | count | id => exact .inl (Offer.isPlain_operators _ _ _ need hneed)
  | trunc =>
    exact .inl (Offer.isPlain_ofObjects_append
      (fun _ => FieldKind.isPlainName_of_mem_operatorsDefinitions)
      (FieldKind.isPlainName_truncName _) need hneed)
  | extract | window =>
    exact .inl (Offer.isPlain_ofObjects_append
      (fun _ => FieldKind.isPlainName_of_mem_operatorsDefinitions) (.inl (by decide)) need hneed)
  | aggregate =>
    exact .inl (Offer.isPlain_ofObjects_append
      (fun _ => isPlainName_of_mem_numbers) (.inl (by decide)) need hneed)
  | compare =>
    exact .inl (Offer.isPlain_ofObjects_append hnone (.inr (by decide)) need hneed)
  | subquery | existence | search =>
    exact .inl (Offer.isPlain_ofObjects_append hnone (.inl (by decide)) need hneed)
  | quick | included | combined | negation => exact absurd hneed List.not_mem_nil
  | joined hr _ hnests | quantified hr _ hnests =>
    exact .inr ⟨_, List.mem_singleton.mp hneed, hnests, _, hr.relation, hr.target⟩
  | conditional hr _ hnests =>
    exact (need_of_mem_conditionalOffer hneed).imp_right fun hfilter =>
      ⟨_, hfilter, hnests, _, hr.relation, hr.target⟩

/-- A filter that is needed is the one on the target of a relation, and may stand there. -/
lemma of_filter_mem_needs (h : Need.filter target ∈ l.needs e depth) :
    depth + 1 < l.maxDepth ∧
      ∃ r ∈ e.relations.values, l.catalog.entity? r.target = some target := by
  rcases need_of_mem_needs h with hplain | ⟨_, heq, htarget⟩
  · exact absurd hplain id
  · cases heq
    exact htarget

/-- The filter on the target of a relation is needed if it may stand there. -/
lemma filter_mem_needs {r : Relation} (hr : r ∈ e.relations.values)
    (htarget : l.catalog.entity? r.target = some target) (hdepth : depth + 1 < l.maxDepth) :
    Need.filter target ∈ l.needs e depth := by
  have hfollows : l.Follows e depth r target := ⟨hr, htarget, by omega⟩
  refine List.mem_flatMap.mpr ?_
  by_cases hmany : r.isToMany
  · exact ⟨_, mem_offers_iff.mpr (.quantified hfollows hmany hdepth .none),
      List.mem_singleton.mpr rfl⟩
  · exact ⟨_, mem_offers_iff.mpr (.joined hfollows hmany hdepth), List.mem_singleton.mpr rfl⟩

end FilterLanguage

/-! ## Growing lists of types -/

namespace InputTypes

variable {ts ts' ts'' : InputTypes} {name : String} {o : InputObject}

lemma name_of_get? (h : ts.get? name = some o) : o.name = name := by
  simpa using List.find?_some h

lemma mem_names_of_get? (h : ts.get? name = some o) : name ∈ ts.names := by
  rw [← name_of_get? h]
  exact List.mem_map.mpr ⟨o, List.mem_of_find?_eq_some h, rfl⟩

lemma exists_get?_of_mem_names (h : name ∈ ts.names) : ∃ o, ts.get? name = some o := by
  obtain ⟨o, ho, rfl⟩ := List.mem_map.mp h
  exact Option.isSome_iff_exists.mp (List.find?_isSome.mpr ⟨o, ho, by simp⟩)

/-- What is defined stays defined. -/
def Extends (ts ts' : InputTypes) : Prop := ∀ name o, ts.get? name = some o → ts'.get? name = some o

lemma Extends.mem_names (h : ts.Extends ts') (hname : name ∈ ts.names) : name ∈ ts'.names := by
  obtain ⟨o, ho⟩ := exists_get?_of_mem_names hname
  exact mem_names_of_get? (h name o ho)

lemma Extends.trans (h : ts.Extends ts') (h' : ts'.Extends ts'') : ts.Extends ts'' :=
  fun name o ho => h' name o (h name o ho)

lemma extends_define (ts : InputTypes) (o : InputObject) : ts.Extends (ts.define o) := by
  intro name o' ho'
  unfold define
  split
  · exact ho'
  · unfold get? at ho' ⊢
    rw [List.find?_append, ho', Option.some_or]

lemma get?_define (h : o.name ∉ ts.names) : (ts.define o).get? o.name = some o := by
  have hnone : ts.objects.find? (·.name = o.name) = none := by
    rw [List.find?_eq_none]
    intro o' ho' hname
    refine h (List.mem_map.mpr ⟨o', ho', ?_⟩)
    simpa using hname
  unfold define get?
  rw [dif_neg h, List.find?_append, hnone]
  simp

lemma name_mem_names_define (ts : InputTypes) (o : InputObject) :
    o.name ∈ (ts.define o).names := by
  rw [names_define]
  split
  · assumption
  · exact List.mem_append_right _ List.mem_cons_self

lemma mem_names_define (h : name ∈ (ts.define o).names) : name ∈ ts.names ∨ name = o.name := by
  rw [names_define] at h
  split at h
  · exact .inl h
  · simpa using h

end InputTypes

/-! ## Filters as deep as the one that is defined are complete -/

namespace FilterLanguage

variable {l : FilterLanguage} {e x target : Entity} {depth k : Nat} {ts ts' ts'' : InputTypes}

/-- There is a schema for every entity of the catalog. -/
lemma schema?_eq_some {n : String} (he : l.catalog.entity? n = some e) :
    l.schema? n depth = some ⟨l.define (l.maxDepth - depth) e depth {}, l.nameOf e depth⟩ :=
  congrArg (Option.map _) he

lemma nameOf_inj {i j : Nat} (h : l.nameOf e i = l.nameOf x j) : e.name = x.name ∧ i = j :=
  filterName_inj h

/-- The name that is defined for a need of a filter at a depth. -/
def needName (l : FilterLanguage) (depth : Nat) : Need → String
  | .object o => o.name
  | .filter target => l.nameOf target (depth + 1)

/-- Filters of a depth or deeper that are defined, are defined as they should be, and so is what
they need. -/
structure ClosedFrom (l : FilterLanguage) (depth : Nat) (ts : InputTypes) : Prop where
  defined : ∀ x ∈ l.catalog.entities.values, ∀ k, depth ≤ k → l.nameOf x k ∈ ts.names →
    ts.get? (l.nameOf x k) = some (l.filterObject x k)
  needed : ∀ x ∈ l.catalog.entities.values, ∀ k, depth ≤ k → l.nameOf x k ∈ ts.names →
    ∀ need ∈ l.needs x k, l.needName k need ∈ ts.names

/-- What is defined in addition are filters of a depth or deeper, and plain objects. -/
structure Grows (l : FilterLanguage) (depth : Nat) (ts ts' : InputTypes) : Prop where
  stays : ts.Extends ts'
  deep : ∀ x k, k < depth → l.nameOf x k ∈ ts'.names → l.nameOf x k ∈ ts.names
  closed : l.ClosedFrom depth ts → l.ClosedFrom depth ts'

lemma Grows.refl (l : FilterLanguage) (depth : Nat) (ts : InputTypes) : l.Grows depth ts ts where
  stays _ _ h := h
  deep _ _ _ h := h
  closed h := h

lemma Grows.trans (h : l.Grows depth ts ts') (h' : l.Grows depth ts' ts'') :
    l.Grows depth ts ts'' where
  stays := h.stays.trans h'.stays
  deep x k hk hx := h.deep x k hk (h'.deep x k hk hx)
  closed hts := h'.closed (h.closed hts)

/-- A plain object does not matter to filters. -/
lemma grows_define_object {o : InputObject} (h : IsPlainName o.name) :
    l.Grows depth ts (ts.define o) := by
  have hold : ∀ {x : Entity} {k : Nat}, l.nameOf x k ∈ (ts.define o).names →
      l.nameOf x k ∈ ts.names := fun hx =>
    (InputTypes.mem_names_define hx).resolve_right fun heq => h.ne_filterName _ _ _ heq.symm
  have hstays := ts.extends_define o
  refine ⟨hstays, fun x k _ hx => hold hx, fun hts => ⟨fun x hx k hk hname => ?_, ?_⟩⟩
  · exact hstays _ _ (hts.defined x hx k hk (hold hname))
  · intro x hx k hk hname need hneed
    exact hstays.mem_names (hts.needed x hx k hk (hold hname) need hneed)

/-- Define what is needed, given how to define the filters that are. -/
lemma grows_foldl {follow : Entity → InputTypes → InputTypes} (needs : List Need)
    (hneeds : ∀ need ∈ needs, need.IsPlain ∨ ∃ target, need = .filter target ∧
      ∀ ts, l.Grows (depth + 1) ts (follow target ts) ∧
        l.nameOf target (depth + 1) ∈ (follow target ts).names) (ts : InputTypes) :
    let ts' := needs.foldl (fun ts need =>
      match need with
      | .object o => ts.define o
      | .filter target => follow target ts) ts
    l.Grows (depth + 1) ts ts' ∧ ∀ need ∈ needs, l.needName depth need ∈ ts'.names := by
  induction needs generalizing ts with
  | nil => exact ⟨.refl l (depth + 1) ts, fun _ h => absurd h List.not_mem_nil⟩
  | cons need needs ih =>
    have hrest := ih fun need hneed => hneeds need (List.mem_cons_of_mem _ hneed)
    rcases hneeds need List.mem_cons_self with hplain | ⟨target, rfl, hfollow⟩
    · cases need with
      | filter target => exact absurd hplain id
      | object o =>
        obtain ⟨hgrows, hnames⟩ := hrest (ts.define o)
        exact ⟨(grows_define_object hplain).trans hgrows,
          List.forall_mem_cons.mpr ⟨hgrows.stays.mem_names (ts.name_mem_names_define o), hnames⟩⟩
    · obtain ⟨hgrows, hnames⟩ := hrest (follow target ts)
      obtain ⟨hfirst, hname⟩ := hfollow ts
      exact ⟨hfirst.trans hgrows,
        List.forall_mem_cons.mpr ⟨hgrows.stays.mem_names hname, hnames⟩⟩

/-- A filter is told apart from the others by the name of its entity. -/
def Distinct (l : FilterLanguage) : Prop :=
  ∀ x ∈ l.catalog.entities.values, ∀ y ∈ l.catalog.entities.values, x.name = y.name → x = y

/-- Entities under their own names are told apart by them. -/
lemma distinct_of_stored (h : ∀ p ∈ l.catalog.entities.entries, p.2.name = p.1) : l.Distinct := by
  intro x hx y hy hname
  obtain ⟨p, hp, rfl⟩ := List.mem_map.mp hx
  obtain ⟨q, hq, rfl⟩ := List.mem_map.mp hy
  have hkey : p.1 = q.1 := by
    rw [← h p hp, ← h q hq]
    exact hname
  have hgetp := Entries.get?_of_mem l.catalog.entities.nodup hp
  have hgetq := Entries.get?_of_mem l.catalog.entities.nodup hq
  rw [← hkey] at hgetq
  exact Option.some.inj (hgetp.symm.trans hgetq)

lemma mem_names_define_filter {o : InputObject} (ho : o.name = l.nameOf e depth)
    (h : l.nameOf x k ∈ (ts.define o).names) :
    l.nameOf x k ∈ ts.names ∨ (x.name = e.name ∧ k = depth) :=
  (InputTypes.mem_names_define h).imp_right fun heq => nameOf_inj (heq.trans ho)

/-- A new filter does not matter to deeper ones. -/
lemma ClosedFrom.define_filter (hts : l.ClosedFrom depth ts) {o : InputObject}
    (ho : o.name = l.nameOf e depth) : l.ClosedFrom (depth + 1) (ts.define o) := by
  have hstays := ts.extends_define o
  have hold : ∀ {x : Entity} {k : Nat}, depth + 1 ≤ k → l.nameOf x k ∈ (ts.define o).names →
      l.nameOf x k ∈ ts.names := by
    intro x k hk hx
    refine (mem_names_define_filter ho hx).resolve_right ?_
    rintro ⟨-, rfl⟩
    omega
  constructor
  · intro x hx k hk hname
    exact hstays _ _ (hts.defined x hx k (by omega) (hold hk hname))
  · intro x hx k hk hname need hneed
    exact hstays.mem_names (hts.needed x hx k (by omega) (hold hk hname) need hneed)

/-- Defining a filter completes it, given that its needs are completed one relation deeper. -/
lemma grows_defineWith (hl : l.Distinct) (he : e ∈ l.catalog.entities.values)
    {follow : Entity → InputTypes → InputTypes}
    (hfollow : ∀ target, Need.filter target ∈ l.needs e depth →
      ∀ ts, l.Grows (depth + 1) ts (follow target ts) ∧
        l.nameOf target (depth + 1) ∈ (follow target ts).names) (ts : InputTypes) :
    l.Grows depth ts (l.defineWith follow e depth ts) ∧
      l.nameOf e depth ∈ (l.defineWith follow e depth ts).names := by
  unfold defineWith
  split
  · next hname => exact ⟨.refl l depth ts, hname⟩
  next hname =>
  have hneeds : ∀ need ∈ l.needs e depth, need.IsPlain ∨ ∃ target, need = .filter target ∧
      ∀ ts, l.Grows (depth + 1) ts (follow target ts) ∧
        l.nameOf target (depth + 1) ∈ (follow target ts).names := by
    intro need hneed
    refine (need_of_mem_needs hneed).imp_right ?_
    rintro ⟨target, rfl, -⟩
    exact ⟨target, rfl, hfollow target hneed⟩
  obtain ⟨hgrows, hnames⟩ := grows_foldl _ hneeds (ts.define (l.filterObject e depth))
  revert hgrows hnames
  generalize (l.needs e depth).foldl _ (ts.define (l.filterObject e depth)) = ts'
  intro hgrows hnames
  have hown : ts'.get? (l.nameOf e depth) = some (l.filterObject e depth) :=
    hgrows.stays _ _ (InputTypes.get?_define hname)
  have hstays := (ts.extends_define (l.filterObject e depth)).trans hgrows.stays
  -- of the filters that are not deeper, only this one is new
  have hnew : ∀ {x : Entity} {k : Nat}, k < depth + 1 → l.nameOf x k ∈ ts'.names →
      l.nameOf x k ∈ ts.names ∨ (x.name = e.name ∧ k = depth) := fun hk hx =>
    mem_names_define_filter rfl (hgrows.deep _ _ hk hx)
  refine ⟨⟨hstays, fun x k hk hx => ?_, fun hts => ?_⟩, InputTypes.mem_names_of_get? hown⟩
  · refine (hnew (by omega) hx).resolve_right ?_
    rintro ⟨-, rfl⟩
    omega
  · have hdeeper := hgrows.closed (hts.define_filter rfl)
    constructor
    · intro x hx k hk hname
      rcases Nat.lt_or_ge depth k with hlt | hge
      · exact hdeeper.defined x hx k hlt hname
      · rcases hnew (by omega) hname with hold | ⟨hsame, rfl⟩
        · exact hstays _ _ (hts.defined x hx k hk hold)
        · rw [hl x hx e he hsame]
          exact hown
    · intro x hx k hk hname need hneed
      rcases Nat.lt_or_ge depth k with hlt | hge
      · exact hdeeper.needed x hx k hlt hname need hneed
      · rcases hnew (by omega) hname with hold | ⟨hsame, rfl⟩
        · exact hstays.mem_names (hts.needed x hx k hk hold need hneed)
        · rw [hl x hx e he hsame] at hneed
          exact hnames need hneed

/-- **Defining a filter completes it**, with all filters that it needs. -/
theorem grows_define (hl : l.Distinct) (room : Nat) (he : e ∈ l.catalog.entities.values)
    (hroom : l.maxDepth ≤ depth + room) (ts : InputTypes) :
    l.Grows depth ts (l.define room e depth ts) ∧
      l.nameOf e depth ∈ (l.define room e depth ts).names := by
  induction room generalizing e depth ts with
  | zero =>
    refine grows_defineWith hl he (fun target htarget => ?_) ts
    have hdepth := (of_filter_mem_needs htarget).1
    omega
  | succ room ih =>
    refine grows_defineWith hl he (fun target htarget => ?_) ts
    obtain ⟨-, r, -, hentity⟩ := of_filter_mem_needs htarget
    exact ih (Catalog.mem_values_of_entity? hentity) (by omega)

/-! ## What a schema holds -/

/-- A filter and its depth lead to the filter on an entity that a relation leads to. -/
def Leads (l : FilterLanguage) (p q : Entity × Nat) : Prop :=
  Need.filter q.1 ∈ l.needs p.1 p.2 ∧ q.2 = p.2 + 1

lemma Leads.mem_entities {p q : Entity × Nat} (h : l.Leads p q) :
    q.1 ∈ l.catalog.entities.values := by
  obtain ⟨-, r, -, hentity⟩ := of_filter_mem_needs h.1
  exact Catalog.mem_values_of_entity? hentity

lemma mem_entities_of_leads {p q : Entity × Nat} (hp : p.1 ∈ l.catalog.entities.values)
    (h : Relation.ReflTransGen l.Leads p q) : q.1 ∈ l.catalog.entities.values := by
  induction h with
  | refl => exact hp
  | tail _ hstep _ => exact hstep.mem_entities

lemma le_depth_of_leads {p q : Entity × Nat} (h : Relation.ReflTransGen l.Leads p q) :
    p.2 ≤ q.2 := by
  induction h with
  | refl => exact Nat.le_refl _
  | tail _ hstep ih => exact hstep.2 ▸ Nat.le_succ_of_le ih

/-- Whatever the depth of the first filter: every filter that relations lead to is defined, with all
that it offers, and so is what it needs. -/
theorem defined_of_leads (hl : l.Distinct) {room : Nat} (he : e ∈ l.catalog.entities.values)
    (hroom : l.maxDepth ≤ depth + room) (h : Relation.ReflTransGen l.Leads (e, depth) (x, k)) :
    (l.define room e depth {}).get? (l.nameOf x k) = some (l.filterObject x k) ∧
      ∀ need ∈ l.needs x k, l.needName k need ∈ (l.define room e depth {}).names := by
  obtain ⟨hgrows, hroot⟩ := l.grows_define hl room he hroom {}
  have hclosed : l.ClosedFrom depth (l.define room e depth {}) :=
    hgrows.closed ⟨fun _ _ _ _ h => absurd h List.not_mem_nil,
      fun _ _ _ _ h => absurd h List.not_mem_nil⟩
  have hmem : ∀ q : Entity × Nat, Relation.ReflTransGen l.Leads (e, depth) q →
      l.nameOf q.1 q.2 ∈ (l.define room e depth {}).names := by
    intro q hq
    induction hq with
    | refl => exact hroot
    | @tail p q hp hstep ih =>
      rw [hstep.2]
      exact hclosed.needed p.1 (mem_entities_of_leads he hp) p.2 (le_depth_of_leads hp) ih
        (.filter q.1) hstep.1
  have hx : x ∈ l.catalog.entities.values := mem_entities_of_leads he h
  have hk : depth ≤ k := le_depth_of_leads h
  have hname : l.nameOf x k ∈ (l.define room e depth {}).names := hmem (x, k) h
  exact ⟨hclosed.defined x hx k hk hname, hclosed.needed x hx k hk hname⟩

/-- **A schema holds every filter that relations lead to**, with all that it offers. -/
theorem get?_of_reaches (hl : l.Distinct) (he : e ∈ l.catalog.entities.values)
    (h : Relation.ReflTransGen l.Leads (e, 0) (x, k)) :
    (l.define l.maxDepth e 0 {}).get? (l.nameOf x k) = some (l.filterObject x k) :=
  (defined_of_leads hl he (Nat.le_of_eq (Nat.zero_add _).symm) h).1

end FilterLanguage

end EntityFilter
