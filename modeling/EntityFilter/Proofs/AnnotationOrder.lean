import EntityFilter.Proofs.AnnotatedRows

/-!
# The order of projections

Projections that do not get in each other's way may be stored in any order.  The members of a row
then come in another order, which does not count when documents are compared
(`Document.same_annotated`).

A document is equal to itself only if it is well formed, so the values that are stored have to be.
They are, because rows are: a value is put together from numbers and texts, or it is a member of a
row as it stands (`Document.wellFormed_of_compute?`).
-/

namespace EntityFilter

namespace Document

variable {names : List String} {members ms : List (String × Document)} {d row x : Document}
  {path rest : List String} {ps qs : List Projection}

/-! ## Values are well formed -/

lemma wellFormed_of_get? {name : String} (h : row.WellFormed) (hd : row.get? name = some d) :
    d.WellFormed := by
  cases row with
  | object members => exact membersWellFormed_iff.mp h.2 _ (Entries.mem_of_get? hd)
  | _ => simp [get?] at hd

lemma wellFormed_valueAt (h : row.WellFormed) (name : String) : (row.valueAt name).WellFormed := by
  rw [valueAt]
  cases hd : row.get? name with
  | none => trivial
  | some d => exact wellFormed_of_get? h hd

lemma wellFormed_of_mem_related (h : row.WellFormed) : ∀ x ∈ row.related rest, x.WellFormed :=
  forall_mem_related (fun _ _ _ h hd => wellFormed_of_mem_rows (wellFormed_of_get? h hd)) rest h

lemma mem_insertRow {ks : List OrderKey} {sorted : List Document} (h : x ∈ insertRow ks row sorted) :
    x = row ∨ x ∈ sorted := by
  induction sorted with
  | nil => exact .inl (List.mem_singleton.mp h)
  | cons last others ih =>
    rw [insertRow] at h
    split at h
    · rcases List.mem_cons.mp h with rfl | h
      · exact .inr List.mem_cons_self
      · exact (ih h).imp_right (List.mem_cons_of_mem _)
    · exact List.mem_cons.mp h

lemma mem_of_mem_sortRows {ks : List OrderKey} {rows : List Document} (h : x ∈ sortRows ks rows) :
    x ∈ rows := by
  have hfold : ∀ (rows sorted : List Document),
      x ∈ rows.foldl (fun sorted row => insertRow ks row sorted) sorted →
        x ∈ rows ∨ x ∈ sorted := by
    intro rows
    induction rows with
    | nil => exact fun _ h => .inr h
    | cons row rows ih =>
      intro sorted h
      rcases ih _ h with h | h
      · exact .inl (List.mem_cons_of_mem _ h)
      · rcases mem_insertRow h with rfl | h
        · exact .inl List.mem_cons_self
        · exact .inr h
  rcases hfold rows [] (List.mem_reverse.mp h) with h | h
  · exact h
  · simp at h

/-- The least and the greatest of some values are among them. -/
lemma extreme_eq_null_or_mem (pick : Ordering) (values : List Document) :
    AggregateFunction.extreme pick values = null ∨
      AggregateFunction.extreme pick values ∈ values := by
  have hfold : ∀ (ds : List Document) (best : Document),
      ds.foldl (fun best v => if v.compare? best = some pick then v else best) best ∈ best :: ds := by
    intro ds
    induction ds with
    | nil => simp
    | cons d ds ih =>
      intro best
      rw [List.foldl_cons]
      rcases List.mem_cons.mp (ih (if d.compare? best = some pick then d else best)) with h | h
      · rw [h]
        split <;> simp
      · exact List.mem_cons_of_mem _ (List.mem_cons_of_mem _ h)
  cases values with
  | nil => exact .inl rfl
  | cons d ds => exact .inr (hfold ds d)

lemma wellFormed_ofFloat (x : Float) : (ofFloat x).WellFormed := by
  rw [ofFloat]
  split <;> trivial

lemma wellFormed_compute {values : List Document} (f : AggregateFunction)
    (h : ∀ d ∈ values, d.WellFormed) : (f.compute values).WellFormed := by
  have hextreme : ∀ pick, (AggregateFunction.extreme pick (values.filter (!·.isNull))).WellFormed := by
    intro pick
    rcases extreme_eq_null_or_mem pick (values.filter (!·.isNull)) with hnull | hmem
    · rw [hnull]
      trivial
    · exact h _ (List.mem_filter.mp hmem).1
  cases f with
  | min => exact hextreme .lt
  | max => exact hextreme .gt
  | count | countDistinct => trivial
  | sum =>
    simp only [AggregateFunction.compute]
    split
    · trivial
    · split
      · trivial
      · exact wellFormed_ofFloat _
  | avg =>
    simp only [AggregateFunction.compute]
    split
    · trivial
    · exact wellFormed_ofFloat _

/-- The value of a projection is well formed, as the row is. -/
lemma wellFormed_of_compute? {expr : ProjectionExpr} (h : row.WellFormed)
    (hvalue : expr.compute? row = some d) : d.WellFormed := by
  have hmoment : ∀ {path : FieldPath} {f : Moment → Document},
      ProjectionExpr.onMoment? row path f = some d → (∀ m, (f m).WellFormed) → d.WellFormed := by
    intro path f hd hf
    obtain ⟨value, -, rfl⟩ := Option.map_eq_some_iff.mp hd
    split
    · exact hf _
    · trivial
  cases expr with
  | aggregate function relation field filter =>
    obtain rfl := Option.some.inj hvalue
    refine wellFormed_compute function fun value hmem => ?_
    obtain ⟨x, hx, rfl⟩ := List.mem_map.mp hmem
    cases field with
    | none => trivial
    | some name =>
      exact wellFormed_valueAt (wellFormed_of_mem_related h x (List.mem_filter.mp hx).1) name
  | subquery relation field orderBy =>
    obtain rfl := Option.some.inj hvalue
    cases hfirst : (sortRows orderBy (row.related relation.segments)).head? with
    | none => trivial
    | some first =>
      have hmem := mem_of_mem_sortRows (List.mem_of_mem_head? hfirst)
      exact wellFormed_valueAt (wellFormed_of_mem_related h first hmem) field
  | count relation =>
    obtain rfl := Option.some.inj hvalue
    trivial
  | searchVector fields config =>
    obtain rfl := Option.some.inj hvalue
    trivial
  | dateTrunc path kind => exact hmoment hvalue fun _ => trivial
  | dateExtract path part => exact hmoment hvalue fun _ => trivial
  | window _ _ => simp [ProjectionExpr.compute?] at hvalue
  | searchRank _ _ _ _ => simp [ProjectionExpr.compute?] at hvalue

/-! ## Equal documents -/

lemma sameMembers_iff :
    sameMembers members ms ↔ ∀ m ∈ members, ∃ d, Entries.get? m.1 ms = some d ∧ m.2.same d := by
  induction members with
  | nil => simp [sameMembers]
  | cons m members ih =>
    obtain ⟨key, d⟩ := m
    rw [sameMembers, Bool.and_eq_true, ih, List.forall_mem_cons]
    cases Entries.get? key ms <;> simp

mutual

lemma same_refl : ∀ d : Document, d.WellFormed → d.same d
  | null, _ => rfl
  | bool _, _ | int _, _ | float _, _ | text _, _ => by simp [same]
  | array items, h => by
    rw [same]
    exact sameItems_refl items h
  | object members, h => by
    simp only [same, beq_self_eq_true, Bool.true_and]
    refine sameMembers_iff.mpr fun m hm => ?_
    exact ⟨m.2, Entries.get?_of_mem h.1 hm, same_refl_of_mem members h.2 m hm⟩

lemma sameItems_refl : ∀ items : List Document, ItemsWellFormed items → sameItems items items
  | [], _ => rfl
  | d :: ds, h => by
    rw [sameItems, same_refl d h.1, sameItems_refl ds h.2]
    rfl

lemma same_refl_of_mem : ∀ members : List (String × Document), MembersWellFormed members →
    ∀ m ∈ members, m.2.same m.2
  | [], _, _, hm => by simp at hm
  | (_, d) :: ms, h, m, hm => by
    rcases List.mem_cons.mp hm with rfl | hm
    · exact same_refl d h.1
    · exact same_refl_of_mem ms h.2 m hm

end

/-- A row gets the same projections in any order, if its members do. -/
lemma same_annotated_object (hperm : ps.Perm qs) (hn : (ps.map Projection.name).Nodup)
    (hnames : ∀ p ∈ ps, p.name ∈ names) (hwell : (object members).WellFormed)
    (hfree : (object members).without names = object members)
    (hmembers : ∀ m ∈ members, (annotatedRows ps (path ++ [m.1]) m.2).same
      (annotatedRows qs (path ++ [m.1]) m.2)) :
    (annotated ps path (object members)).same (annotated qs path (object members)) := by
  have hlength : (ownProjections ps path (object members)).length =
      (ownProjections qs path (object members)).length := (hperm.filterMap _).length_eq
  have hlengths : (annotatedMembers ps path members).length =
      (annotatedMembers qs path members).length := by
    rw [annotatedMembers_eq_map, annotatedMembers_eq_map, List.length_map, List.length_map]
  rw [annotated, annotated, same, List.length_append, List.length_append, hlength, hlengths]
  simp only [beq_self_eq_true, Bool.true_and]
  refine sameMembers_iff.mpr fun m hm => ?_
  rcases List.mem_append.mp hm with hm | hm
  · rw [annotatedMembers_eq_map] at hm
    obtain ⟨m, hmem, rfl⟩ := List.mem_map.mp hm
    refine ⟨annotatedRows qs (path ++ [m.1]) m.2, ?_, hmembers m hmem⟩
    rw [Entries.get?_append, get?_annotatedMembers, Entries.get?_of_mem hwell.1 hmem]
    rfl
  · obtain ⟨p, hp, hscope, hvalue, hname⟩ := mem_ownProjections.mp hm
    have hget : (annotated qs path (object members)).get? p.name =
        if p.scope.segments = path then p.expr.compute? (object members) else none :=
      get?_annotated ((hperm.map Projection.name).nodup_iff.mp hn) (hperm.subset hp) (hnames p hp)
        hfree rfl
    rw [if_pos hscope, hvalue, hname] at hget
    exact ⟨m.2, hget, same_refl m.2 (wellFormed_of_compute? hwell hvalue)⟩

mutual

/-- **The order of projections does not count.** -/
theorem same_annotated {names : List String} {ps qs : List Projection} (hperm : ps.Perm qs)
    (hn : (ps.map Projection.name).Nodup) (hnames : ∀ p ∈ ps, p.name ∈ names) :
    ∀ (path : List String) (d : Document), d.WellFormed → d.without names = d →
      (annotated ps path d).same (annotated qs path d)
  | path, object members, hwell, hfree =>
    same_annotated_object hperm hn hnames hwell hfree
      (same_annotatedMembers hperm hn hnames path members hwell.2
        (without_object_eq_self_iff.mp hfree))
  | _, null, hwell, _ | _, bool _, hwell, _ | _, int _, hwell, _ | _, float _, hwell, _
  | _, text _, hwell, _ | _, array _, hwell, _ => same_refl _ hwell

theorem same_annotatedMembers {names : List String} {ps qs : List Projection} (hperm : ps.Perm qs)
    (hn : (ps.map Projection.name).Nodup) (hnames : ∀ p ∈ ps, p.name ∈ names) :
    ∀ (path : List String) (members : List (String × Document)), MembersWellFormed members →
      (∀ m ∈ members, m.1 ∉ names ∧ m.2.without names = m.2) →
      ∀ m ∈ members, (annotatedRows ps (path ++ [m.1]) m.2).same
        (annotatedRows qs (path ++ [m.1]) m.2)
  | _, [], _, _, _, hm => by simp at hm
  | path, (name, d) :: ms, hwell, hfree, m, hm => by
    rw [List.forall_mem_cons] at hfree
    rcases List.mem_cons.mp hm with rfl | hm
    · exact same_annotatedRows hperm hn hnames (path ++ [name]) d hwell.1 hfree.1.2
    · exact same_annotatedMembers hperm hn hnames path ms hwell.2 hfree.2 m hm

theorem same_annotatedRows {names : List String} {ps qs : List Projection} (hperm : ps.Perm qs)
    (hn : (ps.map Projection.name).Nodup) (hnames : ∀ p ∈ ps, p.name ∈ names) :
    ∀ (path : List String) (d : Document), d.WellFormed → d.without names = d →
      (annotatedRows ps path d).same (annotatedRows qs path d)
  | path, object members, hwell, hfree =>
    same_annotated_object hperm hn hnames hwell hfree
      (same_annotatedMembers hperm hn hnames path members hwell.2
        (without_object_eq_self_iff.mp hfree))
  | path, array items, hwell, hfree => by
    rw [annotatedRows, annotatedRows, same]
    exact same_annotatedItems hperm hn hnames path items hwell
      (without_array_eq_self_iff.mp hfree)
  | _, null, hwell, _ | _, bool _, hwell, _ | _, int _, hwell, _ | _, float _, hwell, _
  | _, text _, hwell, _ => same_refl _ hwell

theorem same_annotatedItems {names : List String} {ps qs : List Projection} (hperm : ps.Perm qs)
    (hn : (ps.map Projection.name).Nodup) (hnames : ∀ p ∈ ps, p.name ∈ names) :
    ∀ (path : List String) (items : List Document), ItemsWellFormed items →
      (∀ d ∈ items, d.without names = d) →
      sameItems (annotatedItems ps path items) (annotatedItems qs path items)
  | _, [], _, _ => rfl
  | path, d :: ds, hwell, hfree => by
    rw [List.forall_mem_cons] at hfree
    rw [annotatedItems, annotatedItems, sameItems,
      same_annotated hperm hn hnames path d hwell.1 hfree.1,
      same_annotatedItems hperm hn hnames path ds hwell.2 hfree.2]
    rfl

end

end Document

end EntityFilter
