import EntityFilter.Proofs.ClosedSchemas

/-!
# What is defined is settled

While the types of a schema grow, an object may refer to a name that is defined later, and the run
may pass over a filter because its name is taken.  In the end nothing of this shows: each object
belongs to a filter that is defined, and what it refers to is defined as well
(`FilterLanguage.settles_define`).  This needs no condition on the catalog; entities may share their
names, so that one of them is never looked at.
-/

namespace EntityFilter

lemma InputObject.mem_references {o : InputObject} {key n : String} {f : InputField}
    (h : o.field? key = some f) (hn : f.type.objectName? = some n) : n ∈ o.references :=
  have hvalue : f ∈ o.fields.values := List.mem_map.mpr ⟨_, Entries.mem_of_get? h, rfl⟩
  List.mem_filterMap.mpr ⟨f, hvalue, hn⟩

namespace FilterLanguage

variable {l : FilterLanguage} {e x target : Entity} {depth k room : Nat} {ts ts' ts'' : InputTypes}
  {o : InputObject}

/-- An object belongs to a filter that is defined, and what it refers to is defined. -/
structure IsSettled (l : FilterLanguage) (ts : InputTypes) (o : InputObject) : Prop where
  belongs : ∃ x k, l.filterObject x k ∈ ts.objects ∧
    (o = l.filterObject x k ∨ Need.object o ∈ l.needs x k)
  resolved : ∀ n ∈ o.references, n ∈ ts.names

lemma IsSettled.mono (h : l.IsSettled ts o) (hgrows : ts.objects <+: ts'.objects) :
    l.IsSettled ts' o where
  belongs :=
    let ⟨x, k, hx, ho⟩ := h.belongs
    ⟨x, k, hgrows.subset hx, ho⟩
  resolved n hn := (hgrows.map InputObject.name).subset (h.resolved n hn)

/-- Types grow by objects that are settled. -/
structure Settles (l : FilterLanguage) (ts ts' : InputTypes) : Prop where
  grows : ts.objects <+: ts'.objects
  settled : ∀ o ∈ ts'.objects, o ∈ ts.objects ∨ l.IsSettled ts' o

lemma Settles.refl (l : FilterLanguage) (ts : InputTypes) : l.Settles ts ts where
  grows := List.prefix_rfl
  settled _ h := .inl h

/-- Define what is needed, given that the filters among it settle. -/
lemma settles_foldl {follow : Entity → InputTypes → InputTypes} (needs : List Need)
    (hfollow : ∀ target, Need.filter target ∈ needs → ∀ ts, l.Settles ts (follow target ts) ∧
      l.nameOf target (depth + 1) ∈ (follow target ts).names) (ts : InputTypes) :
    let ts' := needs.foldl (fun ts need =>
      match need with
      | .object o => ts.define o
      | .filter target => follow target ts) ts
    ts.objects <+: ts'.objects ∧ (∀ need ∈ needs, l.needName depth need ∈ ts'.names) ∧
      ∀ o ∈ ts'.objects, o ∈ ts.objects ∨ Need.object o ∈ needs ∨ l.IsSettled ts' o := by
  induction needs generalizing ts with
  | nil => exact ⟨List.prefix_rfl, fun _ h => absurd h List.not_mem_nil, fun _ h => .inl h⟩
  | cons need needs ih =>
    have hrest := ih fun target htarget => hfollow target (List.mem_cons_of_mem _ htarget)
    cases need with
    | object y =>
      obtain ⟨hgrows, hnames, hnew⟩ := hrest (ts.define y)
      refine ⟨(ts.prefix_define y).trans hgrows, List.forall_mem_cons.mpr
        ⟨(hgrows.map InputObject.name).subset (ts.name_mem_names_define y), hnames⟩,
        fun o ho => ?_⟩
      rcases hnew o ho with hold | hneed | hsettled
      · refine (InputTypes.mem_objects_define hold).imp_right fun heq => .inl ?_
        exact List.mem_cons.mpr (.inl (congrArg Need.object heq))
      · exact .inr (.inl (List.mem_cons_of_mem _ hneed))
      · exact .inr (.inr hsettled)
    | filter target =>
      obtain ⟨hgrows, hnames, hnew⟩ := hrest (follow target ts)
      obtain ⟨hfirst, hname⟩ := hfollow target List.mem_cons_self ts
      refine ⟨hfirst.grows.trans hgrows, List.forall_mem_cons.mpr
        ⟨(hgrows.map InputObject.name).subset hname, hnames⟩, fun o ho => ?_⟩
      rcases hnew o ho with hold | hneed | hsettled
      · exact (hfirst.settled o hold).imp_right fun h => .inr (h.mono hgrows)
      · exact .inr (.inl (List.mem_cons_of_mem _ hneed))
      · exact .inr (.inr hsettled)

/-- A filter settles if those settle that it needs. -/
lemma settles_defineWith {follow : Entity → InputTypes → InputTypes}
    (hfollow : ∀ target, Need.filter target ∈ l.needs e depth → ∀ ts,
      l.Settles ts (follow target ts) ∧
        l.nameOf target (depth + 1) ∈ (follow target ts).names) (ts : InputTypes) :
    l.Settles ts (l.defineWith follow e depth ts) ∧
      l.nameOf e depth ∈ (l.defineWith follow e depth ts).names := by
  unfold defineWith
  split
  · next hname => exact ⟨.refl l ts, hname⟩
  next hname =>
  obtain ⟨hgrows, hnames, hnew⟩ := settles_foldl _ hfollow (ts.define (l.filterObject e depth))
  revert hgrows hnames hnew
  generalize (l.needs e depth).foldl _ (ts.define (l.filterObject e depth)) = ts'
  intro hgrows hnames hnew
  have hown : l.filterObject e depth ∈ ts'.objects :=
    hgrows.subset (List.mem_of_find?_eq_some (InputTypes.get?_define hname))
  have hroot : l.nameOf e depth ∈ ts'.names := List.mem_map.mpr ⟨_, hown, rfl⟩
  have hoffer : ∀ {offer n}, offer ∈ l.offers e depth → n ∈ offer.needs.map (l.needName depth) →
      n ∈ ts'.names := by
    intro offer n hoffer hn
    obtain ⟨need, hneed, rfl⟩ := List.mem_map.mp hn
    exact hnames need (List.mem_flatMap.mpr ⟨offer, hoffer, hneed⟩)
  refine ⟨⟨(ts.prefix_define _).trans hgrows, fun o ho => ?_⟩, hroot⟩
  rcases hnew o ho with hold | hneed | hsettled
  · refine (InputTypes.mem_objects_define hold).imp_right fun heq => ?_
    subst heq
    refine ⟨⟨e, depth, hown, .inl rfl⟩, fun n hn => ?_⟩
    obtain ⟨f, hf, hn⟩ := InputObject.exists_of_mem_references hn
    obtain ⟨offer, hmem, rfl⟩ := List.mem_map.mp hf
    rcases (isClosedOffer_of_mem_offers hmem).field n hn with rfl | hn
    · exact hroot
    · exact hoffer hmem hn
  · refine .inr ⟨⟨e, depth, hown, .inr hneed⟩, fun n hn => ?_⟩
    obtain ⟨offer, hmem, hneed⟩ := List.mem_flatMap.mp hneed
    exact hoffer hmem ((isClosedOffer_of_mem_offers hmem).objects o hneed n hn)
  · exact .inr hsettled

/-- **Whatever is defined is settled**, also if entities share their names. -/
theorem settles_define (room : Nat) (hroom : l.maxDepth ≤ depth + room) (ts : InputTypes) :
    l.Settles ts (l.define room e depth ts) ∧
      l.nameOf e depth ∈ (l.define room e depth ts).names := by
  induction room generalizing e depth ts with
  | zero =>
    refine settles_defineWith (fun target htarget => ?_) ts
    have hdepth := (of_filter_mem_needs htarget).1
    omega
  | succ room ih => exact settles_defineWith (fun target _ => ih (by omega)) ts

/-- The objects of a schema are settled. -/
lemma isSettled_of_schema {s : FilterSchema} {n : String} (hs : l.schema? n depth = some s)
    (ho : o ∈ s.types.objects) : l.IsSettled s.types o := by
  obtain ⟨e, -, rfl⟩ := Option.map_eq_some_iff.mp hs
  have hroom : l.maxDepth ≤ depth + (l.maxDepth - depth) := by omega
  obtain ⟨hsettles, -⟩ := settles_define (e := e) _ hroom {}
  exact (hsettles.settled o ho).resolve_left List.not_mem_nil

end FilterLanguage

end EntityFilter
