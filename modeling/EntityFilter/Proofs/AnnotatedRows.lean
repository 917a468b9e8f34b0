import EntityFilter.Proofs.CatalogPaths
import EntityFilter.Proofs.RowPaths
import EntityFilter.Row.Annotation
import Mathlib.Data.List.Nodup

/-!
# Rows with their projections

Projections are stored one after the other, each in the rows that its path leads to, and a later one
is computed on rows that hold the earlier ones already.  `Document.annotated` says in one go what
should come of it: every row gets, behind its own members, the values of the projections that are
computed for the rows at its path, each value as it is for the row without any projections.

The two agree for projections that do not get in each other's way (`Independent`): their names
differ, no path goes through one of the names, and no value depends on what the others store
(`Document.foldl_annotateWith`).  The step is one projection (`Document.mapAlong_annotated`), by
induction on what is left of its path.

What `Document.annotated` adds can be read off it: which members a row gains
(`Document.get?_annotated`) and that nothing else changes (`Document.without_annotated`).
-/

namespace EntityFilter

namespace Document

/-! ## Well-formed documents and documents without some names -/

mutual

/-- A document in which no object has members of some names. -/
def without (names : List String) : Document → Document
  | array items => array (withoutItems names items)
  | object members => object (withoutMembers names members)
  | d => d

/-- Items in which no object has members of some names. -/
def withoutItems (names : List String) : List Document → List Document
  | [] => []
  | d :: ds => d.without names :: withoutItems names ds

/-- Members of other names, in which no object has members of these names. -/
def withoutMembers (names : List String) : List (String × Document) → List (String × Document)
  | [] => []
  | (key, d) :: ms =>
    if key ∈ names then withoutMembers names ms
    else (key, d.without names) :: withoutMembers names ms

end

-- The equations are made here once, since many proofs below ask for them at the same time.
section
attribute [local simp] without withoutItems withoutMembers ItemsWellFormed MembersWellFormed
end

variable {names : List String} {members ms : List (String × Document)} {items : List Document}
  {d row x : Document} {path rest : List String} {ps qs : List Projection} {p : Projection}

lemma membersWellFormed_iff : MembersWellFormed ms ↔ ∀ m ∈ ms, m.2.WellFormed := by
  induction ms with
  | nil => simp [MembersWellFormed]
  | cons m ms ih =>
    obtain ⟨key, d⟩ := m
    simp [MembersWellFormed, ih]

lemma itemsWellFormed_iff : ItemsWellFormed items ↔ ∀ d ∈ items, d.WellFormed := by
  induction items with
  | nil => simp [ItemsWellFormed]
  | cons d ds ih => simp [ItemsWellFormed, ih]

lemma withoutItems_eq_map : withoutItems names items = items.map (without names) := by
  induction items with
  | nil => rfl
  | cons d ds ih => rw [withoutItems, ih, List.map_cons]

lemma withoutMembers_append :
    withoutMembers names (members ++ ms) =
      withoutMembers names members ++ withoutMembers names ms := by
  induction members with
  | nil => rfl
  | cons m members ih =>
    obtain ⟨key, d⟩ := m
    rw [List.cons_append, withoutMembers, withoutMembers, ih]
    split <;> rfl

lemma length_withoutMembers_le (names : List String) (ms : List (String × Document)) :
    (withoutMembers names ms).length ≤ ms.length := by
  induction ms with
  | nil => exact Nat.le_refl _
  | cons m ms ih =>
    obtain ⟨key, d⟩ := m
    rw [withoutMembers]
    split
    · exact Nat.le_succ_of_le ih
    · exact Nat.succ_le_succ ih

/-- Members among which nothing has to be left out. -/
lemma withoutMembers_eq_self_iff :
    withoutMembers names ms = ms ↔ ∀ m ∈ ms, m.1 ∉ names ∧ m.2.without names = m.2 := by
  induction ms with
  | nil => simp [withoutMembers]
  | cons m ms ih =>
    obtain ⟨key, d⟩ := m
    rw [withoutMembers, List.forall_mem_cons, ← ih]
    split
    · next hkey =>
      have hlength := length_withoutMembers_le names ms
      constructor
      · intro h
        rw [h, List.length_cons] at hlength
        omega
      · exact fun h => absurd hkey h.1.1
    · next hkey => simp [hkey]

/-- A document that names have been kept out of, with its members and items. -/
lemma without_object_eq_self_iff :
    (object ms).without names = object ms ↔ ∀ m ∈ ms, m.1 ∉ names ∧ m.2.without names = m.2 := by
  rw [without, object.injEq, withoutMembers_eq_self_iff]

lemma without_array_eq_self_iff :
    (array items).without names = array items ↔ ∀ d ∈ items, d.without names = d := by
  rw [without, array.injEq, withoutItems_eq_map]
  conv => lhs; rhs; rw [← List.map_id items]
  rw [List.map_inj_left]
  rfl

lemma wellFormed_of_mem_rows (h : d.WellFormed) : ∀ x ∈ d.rows, x.WellFormed := by
  intro x hx
  cases d with
  | array items => exact itemsWellFormed_iff.mp h x hx
  | object members =>
    obtain rfl := List.mem_singleton.mp hx
    exact h
  | _ => simp [rows] at hx

lemma without_of_mem_rows (h : d.without names = d) : ∀ x ∈ d.rows, x.without names = x := by
  intro x hx
  cases d with
  | array items => exact without_array_eq_self_iff.mp h x hx
  | object members =>
    obtain rfl := List.mem_singleton.mp hx
    exact h
  | _ => simp [rows] at hx

lemma without_of_get? {name : String} (h : row.without names = row) (hd : row.get? name = some d) :
    d.without names = d := by
  cases row with
  | object members => exact (without_object_eq_self_iff.mp h _ (Entries.mem_of_get? hd)).2
  | _ => simp [get?] at hd

lemma without_of_mem_related (h : row.without names = row) :
    ∀ x ∈ row.related rest, x.without names = x :=
  forall_mem_related (fun _ _ _ h hd => without_of_mem_rows (without_of_get? h hd)) rest h

/-! ## All projections at once -/

/-- The projections that a row at a path gets. -/
def ownProjections (ps : List Projection) (path : List String) (row : Document) :
    List (String × Document) :=
  ps.filterMap fun p =>
    if p.scope.segments = path then (p.expr.compute? row).map fun value => (p.name, value) else none

mutual

/-- A row at a path, with the projections of all rows in it. -/
def annotated (ps : List Projection) (path : List String) : Document → Document
  | object members =>
    object (annotatedMembers ps path members ++ ownProjections ps path (object members))
  | d => d

/-- The members of a row at a path. -/
def annotatedMembers (ps : List Projection) (path : List String) :
    List (String × Document) → List (String × Document)
  | [] => []
  | (name, d) :: ms =>
    (name, annotatedRows ps (path ++ [name]) d) :: annotatedMembers ps path ms

/-- What a member holds; its rows are at the path. -/
def annotatedRows (ps : List Projection) (path : List String) : Document → Document
  | object members =>
    object (annotatedMembers ps path members ++ ownProjections ps path (object members))
  | array items => array (annotatedItems ps path items)
  | d => d

/-- Rows at a path. -/
def annotatedItems (ps : List Projection) (path : List String) : List Document → List Document
  | [] => []
  | d :: ds => annotated ps path d :: annotatedItems ps path ds

end

lemma annotatedItems_eq_map : annotatedItems ps path items = items.map (annotated ps path) := by
  induction items with
  | nil => rfl
  | cons d ds ih => rw [annotatedItems, ih, List.map_cons]

lemma annotatedMembers_eq_map :
    annotatedMembers ps path ms =
      ms.map fun m => (m.1, annotatedRows ps (path ++ [m.1]) m.2) := by
  induction ms with
  | nil => rfl
  | cons m ms ih =>
    obtain ⟨name, d⟩ := m
    rw [annotatedMembers, ih, List.map_cons]

lemma keys_annotatedMembers : Entries.keys (annotatedMembers ps path ms) = Entries.keys ms := by
  rw [annotatedMembers_eq_map, Entries.keys, List.map_map]
  rfl

lemma get?_annotatedMembers (name : String) :
    Entries.get? name (annotatedMembers ps path ms) =
      (Entries.get? name ms).map (annotatedRows ps (path ++ [name])) := by
  induction ms with
  | nil => rfl
  | cons m ms ih =>
    obtain ⟨key, d⟩ := m
    rw [annotatedMembers, Entries.get?, Entries.get?]
    split
    · next hkey => rw [hkey, Option.map_some]
    · exact ih

lemma mem_ownProjections {m : String × Document} :
    m ∈ ownProjections ps path row ↔
      ∃ p ∈ ps, p.scope.segments = path ∧ p.expr.compute? row = some m.2 ∧ p.name = m.1 := by
  simp only [ownProjections, List.mem_filterMap]
  constructor
  · rintro ⟨p, hp, h⟩
    obtain ⟨hscope, h⟩ := Option.ite_none_right_eq_some.mp h
    obtain ⟨value, hvalue, rfl⟩ := Option.map_eq_some_iff.mp h
    exact ⟨p, hp, hscope, hvalue, rfl⟩
  · rintro ⟨p, hp, hscope, hvalue, hname⟩
    refine ⟨p, hp, ?_⟩
    rw [if_pos hscope, hvalue, Option.map_some, hname]

lemma name_of_mem_keys_ownProjections {name : String}
    (h : name ∈ Entries.keys (ownProjections ps path row)) : name ∈ ps.map Projection.name := by
  obtain ⟨m, hm, rfl⟩ := List.mem_map.mp h
  obtain ⟨p, hp, -, -, hname⟩ := mem_ownProjections.mp hm
  exact List.mem_map.mpr ⟨p, hp, hname⟩

lemma keys_ownProjections_sublist (ps : List Projection) (path : List String) (row : Document) :
    (Entries.keys (ownProjections ps path row)).Sublist (ps.map Projection.name) := by
  induction ps with
  | nil => exact List.Sublist.refl _
  | cons p ps ih =>
    rw [ownProjections, List.filterMap_cons]
    split
    · exact ih.cons _
    · next m hm =>
      obtain ⟨-, hm⟩ := Option.ite_none_right_eq_some.mp hm
      obtain ⟨value, -, rfl⟩ := Option.map_eq_some_iff.mp hm
      exact ih.cons_cons _

/-- A projection among those that a row gets, as none has the name of another. -/
lemma get?_ownProjections (hn : (ps.map Projection.name).Nodup) (hp : p ∈ ps) :
    Entries.get? p.name (ownProjections ps path row) =
      if p.scope.segments = path then p.expr.compute? row else none := by
  have hnodup := hn.sublist (keys_ownProjections_sublist ps path row)
  have hunique : ∀ q ∈ ps, q.name = p.name → q = p := fun q hq hname =>
    List.inj_on_of_nodup_map hn hq hp hname
  cases hvalue : if p.scope.segments = path then p.expr.compute? row else none with
  | none =>
    rw [Entries.get?_eq_none_iff]
    intro hmem
    obtain ⟨m, hm, hname⟩ := List.mem_map.mp hmem
    obtain ⟨q, hq, hscope, hcompute, hqname⟩ := mem_ownProjections.mp hm
    obtain rfl := hunique q hq (hqname.trans hname)
    rw [if_pos hscope, hcompute] at hvalue
    simp at hvalue
  | some value =>
    obtain ⟨hscope, hcompute⟩ := Option.ite_none_right_eq_some.mp hvalue
    exact Entries.get?_of_mem hnodup (mem_ownProjections.mpr ⟨p, hp, hscope, hcompute, rfl⟩)

/-! ### Rows behind rows -/

lemma rows_annotatedRows (ps : List Projection) (path : List String) (d : Document) :
    (annotatedRows ps path d).rows = d.rows.map (annotated ps path) := by
  cases d with
  | array items => rw [annotatedRows, rows, rows, annotatedItems_eq_map]
  | object members => rfl
  | _ => rfl

/-- The member of a row that is no projection. -/
lemma get?_annotated_of_notMem {name : String} (h : name ∉ ps.map Projection.name) :
    (annotated ps path row).get? name =
      (row.get? name).map (annotatedRows ps (path ++ [name])) := by
  cases row with
  | object members =>
    have hown : Entries.get? name (ownProjections ps path (object members)) = none :=
      Entries.get?_eq_none_iff.mpr fun hmem => h (name_of_mem_keys_ownProjections hmem)
    rw [annotated, get?, get?, Entries.get?_append, get?_annotatedMembers, hown, Option.or_none]
  | _ => rfl

lemma rowsAt_annotated {name : String} (h : name ∉ ps.map Projection.name) (path : List String)
    (row : Document) :
    (annotated ps path row).rowsAt name = (row.rowsAt name).map (annotated ps (path ++ [name])) := by
  rw [rowsAt, rowsAt, get?_annotated_of_notMem h]
  cases row.get? name with
  | none => rfl
  | some d => exact rows_annotatedRows ps (path ++ [name]) d

/-- **Rows with their projections are reached like rows without them.** -/
theorem related_annotated (h : ∀ name ∈ rest, name ∉ ps.map Projection.name) :
    (annotated ps path row).related rest =
      (row.related rest).map (annotated ps (path ++ rest)) := by
  induction rest generalizing path row with
  | nil => simp [related]
  | cons name rest ih =>
    have hstep := rowsAt_annotated (h name List.mem_cons_self) path row
    have hrest : ∀ x, (annotated ps (path ++ [name]) x).related rest =
        (x.related rest).map (annotated ps (path ++ [name] ++ rest)) :=
      fun x => ih fun n hn => h n (List.mem_cons_of_mem _ hn)
    rw [related_cons, related_cons, hstep, List.flatMap_map, List.map_flatMap]
    refine congrArg (List.flatMap · _) (funext fun x => ?_)
    rw [hrest x, List.append_assoc, List.singleton_append]

/-! ### Projections for other rows -/

lemma ownProjections_append_of_notPrefix
    (h : ∀ q ∈ qs, ¬path <+: q.scope.segments) (row : Document) :
    ownProjections (ps ++ qs) path row = ownProjections ps path row := by
  have hqs : ownProjections qs path row = [] := by
    refine List.filterMap_eq_nil_iff.mpr fun q hq => if_neg fun heq => ?_
    exact h q hq (heq ▸ List.prefix_refl _)
  rw [ownProjections, List.filterMap_append]
  exact (congrArg (_ ++ ·) hqs).trans (List.append_nil _)

lemma notPrefix_child {name : String} (h : ∀ q ∈ qs, ¬path <+: q.scope.segments) :
    ∀ q ∈ qs, ¬path ++ [name] <+: q.scope.segments :=
  fun q hq hprefix => h q hq ((List.prefix_append _ _).trans hprefix)

mutual

/-- A document stays as it is under projections whose paths lead elsewhere. -/
theorem annotated_append_of_notPrefix {ps qs : List Projection} :
    ∀ {path : List String} (d : Document), (∀ q ∈ qs, ¬path <+: q.scope.segments) →
      annotated (ps ++ qs) path d = annotated ps path d
  | path, object members, h => by
    rw [annotated, annotated, annotatedMembers_append_of_notPrefix members h,
      ownProjections_append_of_notPrefix h]
  | _, null, _ | _, bool _, _ | _, int _, _ | _, float _, _ | _, text _, _ | _, array _, _ => rfl

theorem annotatedMembers_append_of_notPrefix {ps qs : List Projection} :
    ∀ {path : List String} (members : List (String × Document)),
      (∀ q ∈ qs, ¬path <+: q.scope.segments) →
      annotatedMembers (ps ++ qs) path members = annotatedMembers ps path members
  | _, [], _ => rfl
  | path, (name, d) :: ms, h => by
    rw [annotatedMembers, annotatedMembers, annotatedMembers_append_of_notPrefix ms h,
      annotatedRows_append_of_notPrefix d (notPrefix_child h)]

theorem annotatedRows_append_of_notPrefix {ps qs : List Projection} :
    ∀ {path : List String} (d : Document), (∀ q ∈ qs, ¬path <+: q.scope.segments) →
      annotatedRows (ps ++ qs) path d = annotatedRows ps path d
  | path, object members, h => by
    rw [annotatedRows, annotatedRows, annotatedMembers_append_of_notPrefix members h,
      ownProjections_append_of_notPrefix h]
  | path, array items, h => by
    rw [annotatedRows, annotatedRows, annotatedItems_append_of_notPrefix items h]
  | _, null, _ | _, bool _, _ | _, int _, _ | _, float _, _ | _, text _, _ => rfl

theorem annotatedItems_append_of_notPrefix {ps qs : List Projection} :
    ∀ {path : List String} (items : List Document), (∀ q ∈ qs, ¬path <+: q.scope.segments) →
      annotatedItems (ps ++ qs) path items = annotatedItems ps path items
  | _, [], _ => rfl
  | path, d :: ds, h => by
    rw [annotatedItems, annotatedItems, annotated_append_of_notPrefix d h,
      annotatedItems_append_of_notPrefix ds h]

end

mutual

lemma annotated_nil : ∀ (path : List String) (d : Document), annotated [] path d = d
  | path, object members => by
    rw [annotated, annotatedMembers_nil path members, ownProjections, List.filterMap_nil,
      List.append_nil]
  | _, null | _, bool _ | _, int _ | _, float _ | _, text _ | _, array _ => rfl

lemma annotatedMembers_nil : ∀ (path : List String) (members : List (String × Document)),
    annotatedMembers [] path members = members
  | _, [] => rfl
  | path, (name, d) :: ms => by
    rw [annotatedMembers, annotatedMembers_nil path ms, annotatedRows_nil (path ++ [name]) d]

lemma annotatedRows_nil : ∀ (path : List String) (d : Document), annotatedRows [] path d = d
  | path, object members => by
    rw [annotatedRows, annotatedMembers_nil path members, ownProjections, List.filterMap_nil,
      List.append_nil]
  | path, array items => by rw [annotatedRows, annotatedItems_nil path items]
  | _, null | _, bool _ | _, int _ | _, float _ | _, text _ => rfl

lemma annotatedItems_nil : ∀ (path : List String) (items : List Document),
    annotatedItems [] path items = items
  | _, [] => rfl
  | path, d :: ds => by rw [annotatedItems, annotated_nil path d, annotatedItems_nil path ds]

end

/-! ## One projection after the other -/

/-- Projections that do not get in each other's way: names differ, no path goes through a name, and
the value of one does not depend on what others have stored. -/
structure Independent (ps : List Projection) : Prop where
  nodup : (ps.map Projection.name).Nodup
  scope : ∀ p ∈ ps, ∀ name ∈ p.scope.segments, name ∉ ps.map Projection.name
  value : ∀ p ∈ ps, ∀ qs, qs ⊆ ps → ∀ row,
    p.expr.compute? (annotated qs p.scope.segments row) = p.expr.compute? row

lemma Independent.perm (h : Independent ps) (hperm : qs.Perm ps) : Independent qs where
  nodup := (hperm.map Projection.name).nodup_iff.mpr h.nodup
  scope p hp name hname hmem :=
    h.scope p (hperm.subset hp) name hname ((hperm.map Projection.name).subset hmem)
  value p hp qs hqs := h.value p (hperm.subset hp) qs fun _ hq => hperm.subset (hqs hq)

lemma annotatedMembers_append_of_children
    (h : ∀ m ∈ ms, ¬path ++ [m.1] <+: p.scope.segments) :
    annotatedMembers (ps ++ [p]) path ms = annotatedMembers ps path ms := by
  rw [annotatedMembers_eq_map, annotatedMembers_eq_map]
  refine List.map_congr_left fun m hm => ?_
  rw [annotatedRows_append_of_notPrefix m.2 (by simpa using h m hm)]

/-- At the end of its path, a projection is added to those that a row has. -/
lemma annotateRow_annotated (hname : p.name ∉ ps.map Projection.name)
    (hvalue : ∀ row, p.expr.compute? (annotated ps p.scope.segments row) = p.expr.compute? row)
    (hmem : p.name ∈ names) (hfree : row.without names = row) :
    annotateRow p (annotated ps p.scope.segments row) =
      annotated (ps ++ [p]) p.scope.segments row := by
  rw [annotateRow, hvalue]
  cases row with
  | object members =>
    have hmembers : annotatedMembers (ps ++ [p]) p.scope.segments members =
        annotatedMembers ps p.scope.segments members := by
      refine annotatedMembers_append_of_children fun m _ hprefix => ?_
      have hlength := hprefix.length_le
      rw [List.length_append, List.length_singleton] at hlength
      omega
    have hkey : p.name ∉ Entries.keys (annotatedMembers ps p.scope.segments members ++
        ownProjections ps p.scope.segments (object members)) := by
      rw [Entries.keys, List.map_append, List.mem_append, not_or]
      constructor
      · intro hkeys
        have hkeys : p.name ∈ Entries.keys members := by rwa [← keys_annotatedMembers]
        obtain ⟨m, hm, hkey⟩ := List.mem_map.mp hkeys
        exact (without_object_eq_self_iff.mp hfree m hm).1 (hkey ▸ hmem)
      · exact fun hkeys => hname (name_of_mem_keys_ownProjections hkeys)
    rw [annotated, annotated, hmembers]
    cases hcompute : p.expr.compute? (object members) with
    | none => simp [ownProjections, List.filterMap_append, hcompute]
    | some value =>
      simp only [Document.insert]
      rw [Entries.insert_eq_append hkey]
      simp [ownProjections, List.filterMap_append, hcompute]
  | _ => cases p.expr.compute? _ <;> rfl

/-- Apply a function to the rows that a member holds. -/
def mapRows (f : Document → Document) : Document → Document
  | array items => array (items.map f)
  | object members => f (object members)
  | d => d

lemma mapAlong_cons (f : Document → Document) (name : String) (rest : List String)
    (ms : List (String × Document)) :
    mapAlong f (name :: rest) (object ms) =
      object (Entries.modify name (mapRows (mapAlong f rest)) ms) := rfl

/-- In what the next member of a path holds, a projection is added to the rows. -/
lemma mapRows_annotatedRows {f : Document → Document}
    (h : ∀ x ∈ d.rows, f (annotated ps path x) = annotated (ps ++ [p]) path x) :
    mapRows f (annotatedRows ps path d) = annotatedRows (ps ++ [p]) path d := by
  cases d with
  | array items =>
    simp only [annotatedRows, mapRows, annotatedItems_eq_map, List.map_map, array.injEq]
    exact List.map_congr_left h
  | object inner => exact h (object inner) (List.mem_singleton.mpr rfl)
  | _ => rfl

/-- **One more projection**: stored along its path in a row that holds the earlier ones, it gives the
row that holds it as well. -/
theorem mapAlong_annotated (hname : p.name ∉ ps.map Projection.name)
    (hscope : ∀ name ∈ p.scope.segments, name ∉ ps.map Projection.name)
    (hvalue : ∀ row, p.expr.compute? (annotated ps p.scope.segments row) = p.expr.compute? row)
    (hpath : path ++ rest = p.scope.segments) (hwell : row.WellFormed) (hmem : p.name ∈ names)
    (hfree : row.without names = row) :
    mapAlong (annotateRow p) rest (annotated ps path row) = annotated (ps ++ [p]) path row := by
  induction rest generalizing path row with
  | nil =>
    rw [List.append_nil] at hpath
    subst hpath
    exact annotateRow_annotated hname hvalue hmem hfree
  | cons name rest ih =>
    cases row with
    | object members =>
      have hmembers := without_object_eq_self_iff.mp hfree
      have hwells := membersWellFormed_iff.mp hwell.2
      have hchild : path ++ [name] ++ rest = p.scope.segments := by simpa using hpath
      have hown : ownProjections (ps ++ [p]) path (object members) =
          ownProjections ps path (object members) := by
        have hne : p.scope.segments ≠ path := by
          rw [← hpath]
          simp
        simp [ownProjections, List.filterMap_append, hne]
      have hkeys : name ∉ Entries.keys (ownProjections ps path (object members)) := by
        intro hmem
        refine hscope name ?_ (name_of_mem_keys_ownProjections hmem)
        rw [← hpath]
        simp
      have hnodup : (Entries.keys (annotatedMembers ps path members)).Nodup := by
        rw [keys_annotatedMembers]
        exact hwell.1
      rw [annotated, annotated, mapAlong_cons, Entries.modify_append_of_notMem hkeys,
        Entries.modify_eq_map hnodup, hown, annotatedMembers_eq_map, annotatedMembers_eq_map,
        List.map_map]
      congr 2
      refine List.map_congr_left fun m hm => ?_
      by_cases hkey : m.1 = name
      · simp only [Function.comp_apply, hkey, if_true]
        refine congrArg _ (mapRows_annotatedRows fun x hx => ?_)
        exact ih hchild (wellFormed_of_mem_rows (hwells m hm) x hx)
          (without_of_mem_rows (hmembers m hm).2 x hx)
      · -- the path does not go through members of other names
        simp only [Function.comp_apply, hkey, if_false]
        refine congrArg _ (annotatedRows_append_of_notPrefix m.2 ?_).symm
        intro q hq hprefix
        obtain rfl := List.mem_singleton.mp hq
        rw [← hpath, List.prefix_append_right_inj] at hprefix
        exact hkey (List.cons_prefix_cons.mp hprefix).1
    | _ => rfl

/-- **Projections that do not get in each other's way come out all at once.** -/
theorem foldl_annotateWith (h : Independent (ps ++ qs)) (hwell : row.WellFormed)
    (hmem : ∀ p ∈ qs, p.name ∈ names) (hfree : row.without names = row) :
    qs.foldl annotateWith (annotated ps [] row) = annotated (ps ++ qs) [] row := by
  induction qs generalizing ps with
  | nil => simp
  | cons p qs ih =>
    have hassoc : ps ++ p :: qs = (ps ++ [p]) ++ qs := by simp
    have hp : p ∈ ps ++ p :: qs := List.mem_append_right _ List.mem_cons_self
    have hnodup : (ps.map Projection.name ++ (p :: qs).map Projection.name).Nodup := by
      rw [← List.map_append]
      exact h.nodup
    have hstep : annotateWith (annotated ps [] row) p = annotated (ps ++ [p]) [] row := by
      refine mapAlong_annotated ?_ ?_ ?_ rfl hwell (hmem p List.mem_cons_self) hfree
      · exact fun hname => (List.nodup_append.mp hnodup).2.2 _ hname _ List.mem_cons_self rfl
      · intro name hname hps
        refine h.scope p hp name hname ?_
        rw [List.map_append]
        exact List.mem_append_left _ hps
      · exact h.value p hp ps (List.subset_append_left _ _)
    rw [List.foldl_cons, hstep, hassoc]
    rw [hassoc] at h
    exact ih h fun q hq => hmem q (List.mem_cons_of_mem _ hq)

/-! ## What is added -/

/-- **The members that a row gains**: the projections for the rows at its path, with their values. -/
theorem get?_annotated (hn : (ps.map Projection.name).Nodup) (hp : p ∈ ps)
    (hmem : p.name ∈ names) (hfree : row.without names = row) (hrow : row.isObject) :
    (annotated ps path row).get? p.name =
      if p.scope.segments = path then p.expr.compute? row else none := by
  cases row with
  | object members =>
    have hkey : Entries.get? p.name members = none := by
      refine Entries.get?_eq_none_iff.mpr fun hkeys => ?_
      obtain ⟨m, hm, hkey⟩ := List.mem_map.mp hkeys
      exact (without_object_eq_self_iff.mp hfree m hm).1 (hkey ▸ hmem)
    rw [annotated, get?, Entries.get?_append, get?_annotatedMembers, hkey, Option.map_none,
      Option.none_or, get?_ownProjections hn hp]
  | _ => simp [isObject] at hrow

lemma withoutMembers_ownProjections (h : ∀ p ∈ ps, p.name ∈ names) :
    withoutMembers names (ownProjections ps path row) = [] := by
  have hkeys : ∀ m ∈ ownProjections ps path row, m.1 ∈ names := by
    intro m hm
    obtain ⟨p, hp, -, -, hname⟩ := mem_ownProjections.mp hm
    exact hname ▸ h p hp
  revert hkeys
  generalize ownProjections ps path row = own
  intro hkeys
  induction own with
  | nil => rfl
  | cons m own ih =>
    obtain ⟨key, d⟩ := m
    rw [withoutMembers, if_pos (hkeys _ List.mem_cons_self)]
    exact ih fun m hm => hkeys m (List.mem_cons_of_mem _ hm)

mutual

/-- **Nothing else changes**: without the projections, a row is as it was. -/
theorem without_annotated {names : List String} {ps : List Projection}
    (h : ∀ p ∈ ps, p.name ∈ names) :
    ∀ (path : List String) (d : Document), (annotated ps path d).without names = d.without names
  | path, object members => by
    rw [annotated, without, without, withoutMembers_append, withoutMembers_ownProjections h,
      List.append_nil, withoutMembers_annotatedMembers h path members]
  | _, null | _, bool _ | _, int _ | _, float _ | _, text _ | _, array _ => rfl

theorem withoutMembers_annotatedMembers {names : List String} {ps : List Projection}
    (h : ∀ p ∈ ps, p.name ∈ names) :
    ∀ (path : List String) (members : List (String × Document)),
      withoutMembers names (annotatedMembers ps path members) = withoutMembers names members
  | _, [] => rfl
  | path, (name, d) :: ms => by
    rw [annotatedMembers, withoutMembers, withoutMembers,
      withoutMembers_annotatedMembers h path ms, without_annotatedRows h (path ++ [name]) d]

theorem without_annotatedRows {names : List String} {ps : List Projection}
    (h : ∀ p ∈ ps, p.name ∈ names) :
    ∀ (path : List String) (d : Document),
      (annotatedRows ps path d).without names = d.without names
  | path, object members => by
    rw [annotatedRows, without, without, withoutMembers_append, withoutMembers_ownProjections h,
      List.append_nil, withoutMembers_annotatedMembers h path members]
  | path, array items => by
    rw [annotatedRows, without, without, withoutItems_annotatedItems h path items]
  | _, null | _, bool _ | _, int _ | _, float _ | _, text _ => rfl

theorem withoutItems_annotatedItems {names : List String} {ps : List Projection}
    (h : ∀ p ∈ ps, p.name ∈ names) :
    ∀ (path : List String) (items : List Document),
      withoutItems names (annotatedItems ps path items) = withoutItems names items
  | _, [] => rfl
  | path, d :: ds => by
    rw [annotatedItems, withoutItems, withoutItems, without_annotated h path d,
      withoutItems_annotatedItems h path ds]

end

end Document

end EntityFilter
