import EntityFilter.Proofs.Contributions
import EntityFilter.Proofs.Maps
import Mathlib.Data.List.Basic

/-!
# What the first phase collects

A visited entry asks for projections (`Visit.requests`), and collecting stores the requests of all
visits one after the other (`Compiler.projections_eq_requests`).  A request whose name is taken is
lost, so the set holds the first request under each name (`ProjectionSet.get?_ofRequests`).  The
handle of a key is found only if the first request under the name has this very key, and then it
denotes the first request under the key (`ProjectionSet.get?_of_lookup?`).

The rank of a search refers to its document by a handle.  Handles never change while projections are
added (`ProjectionSet.Initial.lookup?_eq`), so it makes no difference whether the request is read
with the set of the moment or with the final one.
-/

namespace EntityFilter

/-! ## Sets that grow at the end -/

namespace ProjectionSet

variable {s final : ProjectionSet} {p : Projection} {key : ProjectionKey} {h : ProjectionHandle}

/-- The one set is the beginning of the other. -/
def Initial (s final : ProjectionSet) : Prop := s.byName.entries <+: final.byName.entries

lemma Initial.refl (s : ProjectionSet) : Initial s s := List.prefix_refl _

lemma Initial.trans {s t final : ProjectionSet} (h : Initial s t) (h' : Initial t final) :
    Initial s final := List.IsPrefix.trans h h'

lemma initial_insert (s : ProjectionSet) (p : Projection) : Initial s (s.insert p) := by
  unfold insert
  split
  · exact .refl s
  · next hp =>
    have hk : p.name ∉ Entries.keys s.byName.entries := by
      rwa [← Entries.contains_iff_mem_keys]
    show s.byName.entries <+: Entries.insert p.name p s.byName.entries
    rw [Entries.insert_eq_append hk]
    exact List.prefix_append _ _

lemma initial_foldl_insert (requests : List Projection) (s : ProjectionSet) :
    Initial s (requests.foldl insert s) := by
  induction requests generalizing s with
  | nil => exact .refl s
  | cons p ps ih => exact (initial_insert s p).trans (ih _)

/-- A key that has been decided stays as it is. -/
lemma Initial.lookup?_eq (hs : Initial s final) (hk : s.byName.contains key.name) :
    final.lookup? key = s.lookup? key := by
  obtain ⟨rest, hrest⟩ := hs
  have hmem := Entries.contains_iff_mem_keys.mp hk
  have hget : final.byName.get? key.name = s.byName.get? key.name := by
    show Entries.get? _ final.byName.entries = _
    rw [← hrest, Entries.get?_append]
    exact Option.or_of_isSome hk
  have hindex : final.byName.indexOf? key.name = s.byName.indexOf? key.name := by
    show Entries.indexOf? _ final.byName.entries = _
    rw [← hrest, Entries.indexOf?_append_of_mem hmem]
    rfl
  unfold lookup?
  rw [hget, hindex]

lemma contains_insert (s : ProjectionSet) (p : Projection) :
    (s.insert p).byName.contains p.name := by
  unfold insert
  split
  · next hp => exact hp
  · show (Entries.get? p.name (Entries.insert p.name p s.byName.entries)).isSome
    rw [Entries.get?_insert_self]
    rfl

/-! ## The first request under a name -/

/-- The set of requests that come one after the other. -/
def ofRequests (requests : List Projection) : ProjectionSet := requests.foldl insert .empty

lemma get?_foldl_insert (requests : List Projection) (s : ProjectionSet) (name : String) :
    (requests.foldl insert s).byName.get? name =
      (s.byName.get? name).or (requests.find? (·.name = name)) := by
  induction requests generalizing s with
  | nil => simp
  | cons p ps ih =>
    rw [List.foldl_cons, ih]
    unfold insert
    by_cases hp : s.byName.contains p.name
    · by_cases hn : p.name = name
      · have hsome : (s.byName.get? name).isSome := by rw [← hn]; exact hp
        simp only [hp, if_true, Option.or_of_isSome hsome]
      · simp [hp, hn]
    · by_cases hn : p.name = name
      · subst hn
        have hnone : s.byName.get? p.name = none := by
          exact Option.not_isSome_iff_eq_none.mp hp
        simp [hp, hnone, OrderedMap.get?_insert_self]
      · simp only [hp, Bool.false_eq_true, if_false, hn, decide_false, List.find?_cons]
        rw [OrderedMap.get?_insert_of_ne _ (Ne.symm hn)]

/-- **The first request under a name is kept.** -/
lemma get?_ofRequests (requests : List Projection) (name : String) :
    (ofRequests requests).byName.get? name = requests.find? (·.name = name) := by
  rw [ofRequests, get?_foldl_insert]
  rfl

/-- Only what is requested is in the set. -/
lemma mem_of_mem_toList_foldl_insert {requests : List Projection} {s : ProjectionSet}
    (hp : p ∈ (requests.foldl insert s).toList) : p ∈ s.toList ∨ p ∈ requests := by
  induction requests generalizing s with
  | nil => exact .inl hp
  | cons q qs ih =>
    rcases ih hp with hs | hqs
    · unfold insert at hs
      split at hs
      · exact .inl hs
      · next hq =>
        have hk : q.name ∉ Entries.keys s.byName.entries := by
          rwa [← Entries.contains_iff_mem_keys]
        have hs : p ∈ (Entries.insert q.name q s.byName.entries).map Prod.snd := hs
        rw [Entries.insert_eq_append hk, List.map_append, List.mem_append] at hs
        rcases hs with hs | hs
        · exact .inl hs
        · exact .inr (List.mem_cons.mpr (.inl (List.mem_singleton.mp hs)))
    · exact .inr (List.mem_cons_of_mem _ hqs)

lemma mem_of_mem_toList_ofRequests {requests : List Projection}
    (hp : p ∈ (ofRequests requests).toList) : p ∈ requests := by
  rcases mem_of_mem_toList_foldl_insert hp with hs | hp
  · simp [empty, toList, OrderedMap.values, OrderedMap.empty] at hs
  · exact hp

/-- Every projection is stored under its name. -/
lemma map_name_toList_ofRequests (requests : List Projection) :
    (ofRequests requests).toList.map Projection.name = (ofRequests requests).names := by
  have hfold : ∀ (requests : List Projection) (s : ProjectionSet),
      s.toList.map Projection.name = s.names →
      (requests.foldl insert s).toList.map Projection.name = (requests.foldl insert s).names := by
    intro requests
    induction requests with
    | nil => exact fun _ h => h
    | cons p ps ih =>
      intro s hs
      refine ih _ ?_
      unfold insert
      split
      · exact hs
      · next hp =>
        have hk : p.name ∉ Entries.keys s.byName.entries := by
          rwa [← Entries.contains_iff_mem_keys]
        show ((Entries.insert p.name p s.byName.entries).map Prod.snd).map Projection.name =
          Entries.keys (Entries.insert p.name p s.byName.entries)
        rw [Entries.insert_eq_append hk, Entries.keys, List.map_append, List.map_append,
          List.map_append]
        exact congrArg (· ++ [p.name]) hs
  exact hfold requests .empty rfl

lemma lookup?_eq_some :
    s.lookup? key = some h ↔
      h.name = key.name ∧ s.byName.indexOf? key.name = some h.index ∧
        ∃ p, s.byName.get? key.name = some p ∧ p.key = key := by
  unfold lookup?
  rcases hp : s.byName.get? key.name with _ | p
  · simp
  · rcases hi : s.byName.indexOf? key.name with _ | i
    · simp
    · obtain ⟨index, name⟩ := h
      by_cases hk : p.key = key
      · simp [hk, eq_comm, and_comm]
      · simp [hk]

/-- A name belongs to one key only. -/
lemma lookup?_unique {key' : ProjectionKey} {h' : ProjectionHandle} (hname : key.name = key'.name)
    (hk : s.lookup? key = some h) (hk' : s.lookup? key' = some h') : key = key' ∧ h = h' := by
  obtain ⟨hn, hi, p, hp, hkey⟩ := lookup?_eq_some.mp hk
  obtain ⟨hn', hi', p', hp', hkey'⟩ := lookup?_eq_some.mp hk'
  rw [← hname] at hi' hp' hn'
  rw [hp] at hp'
  rw [hi] at hi'
  constructor
  · rw [← hkey, ← hkey', Option.some.inj hp']
  · cases h
    cases h'
    simp_all

/-- The projection of the handle of a key has this key. -/
lemma get?_of_lookup? (hk : s.lookup? key = some h) :
    ∃ p, s.get? h = some p ∧ p.key = key ∧ s.byName.get? key.name = some p := by
  obtain ⟨-, hi, p, hp, hkey⟩ := lookup?_eq_some.mp hk
  refine ⟨p, ?_, hkey, hp⟩
  rw [← hp]
  exact Entries.getElem?_of_indexOf? hi

/-- **A handle denotes the first request under its key.** -/
theorem get?_ofRequests_of_lookup? {requests : List Projection}
    (hk : (ofRequests requests).lookup? key = some h) :
    (ofRequests requests).get? h = requests.find? (·.key = key) := by
  obtain ⟨p, hget, hkey, hp⟩ := get?_of_lookup? hk
  rw [get?_ofRequests] at hp
  rw [hget]
  -- what comes before the first request under the name has another name, hence another key
  obtain ⟨-, before, after, hsplit, hbefore⟩ := List.find?_eq_some_iff_append.mp hp
  refine (List.find?_eq_some_iff_append.mpr ⟨by simpa using hkey, before, after, hsplit, ?_⟩).symm
  intro q hq
  have hname := hbefore q hq
  simp only [Bool.not_eq_eq_eq_not, Bool.not_true, decide_eq_false_iff_not] at hname ⊢
  intro hqk
  exact hname (congrArg ProjectionKey.name hqk)

/-- A projection of the set is found under its key. -/
lemma exists_lookup?_of_mem {requests : List Projection} (hp : p ∈ (ofRequests requests).toList) :
    ∃ h, (ofRequests requests).lookup? p.key = some h ∧ (ofRequests requests).get? h = some p := by
  obtain ⟨⟨name, q⟩, hentry, hq⟩ := List.mem_map.mp hp
  obtain rfl : q = p := hq
  have hnames := map_name_toList_ofRequests requests
  simp only [toList, OrderedMap.values, names, OrderedMap.keys, Entries.keys, List.map_map] at hnames
  have hname : q.name = name := List.map_inj_left.mp hnames _ hentry
  subst hname
  have hget := Entries.get?_of_mem (ofRequests requests).byName.nodup hentry
  obtain ⟨i, hi⟩ := Option.isSome_iff_exists.mp (Entries.isSome_indexOf? hget)
  have hk : (ofRequests requests).lookup? q.key = some ⟨i, q.name⟩ :=
    lookup?_eq_some.mpr ⟨rfl, hi, q, hget, rfl⟩
  obtain ⟨q', hdenotes, -, hget'⟩ := get?_of_lookup? hk
  obtain rfl := Option.some.inj (hget.symm.trans hget')
  exact ⟨_, hk, hdenotes⟩

end ProjectionSet

/-! ## Requests -/

/-- The projections that a search asks for; the rank refers to the document in the set. -/
def Compiler.searchRequests (c : Compiler) (set : ProjectionSet) (s : Scope)
    (search : SearchFilter) : List Projection :=
  match c.planSearch? s search with
  | none => []
  | some plan =>
    { key := plan.vector
      expr := .searchVector (plan.fields.map s.fieldPath) plan.config
      scope := s.rows } ::
    match set.lookup? plan.vector, plan.rank with
    | some vector, some rank =>
      [{ key := rank
         expr := .searchRank vector search.query search.mode plan.config
         scope := s.rows }]
    | _, _ => []

/-- The projections that a visited entry asks for, to be computed for the rows of its scope. -/
def Visit.requests (c : Compiler) (set : ProjectionSet) (v : Visit) : List Projection :=
  match v.entry with
  | .search search => c.searchRequests set v.scope search
  | _ => (v.asks c).map fun (plan, expr) => { key := plan.key, expr, scope := v.scope.rows }

/-- The predicate that picks the rows of an aggregate. -/
def ProjectionExpr.filter? : ProjectionExpr → Option Predicate
  | aggregate _ _ _ filter => filter
  | _ => none

/-- The predicate that picks the rows of the aggregates of a visited entry. -/
def Visit.filter? (c : Compiler) (v : Visit) : Option Predicate :=
  match v.entry with
  | .aggregate a condition =>
    condition.bind fun (f, _) => c.conditionPredicate? v.scope a.relation f
  | _ => none

lemma Visit.filter?_of_mem_asks {c : Compiler} {v : Visit} {plan : Plan} {expr : ProjectionExpr}
    (h : (plan, expr) ∈ v.asks c) : expr.filter? = v.filter? c := by
  obtain ⟨s, key, e⟩ := v
  cases e with
  | aggregate a condition | window items | subquery items =>
    obtain ⟨i, -, hplan⟩ := List.mem_filterMap.mp h
    obtain ⟨plan', -, heq⟩ := Option.map_eq_some_iff.mp hplan
    obtain ⟨rfl, rfl⟩ := Prod.mk.inj heq
    rfl
  | trunc t | extract t =>
    obtain ⟨plan', -, heq⟩ := Option.map_eq_some_iff.mp (Option.mem_toList.mp h)
    obtain ⟨rfl, rfl⟩ := Prod.mk.inj heq
    rfl
  | count relation leaf =>
    simp only [Visit.asks, FilterEntry.asks] at h
    split at h
    · simp at h
    · obtain ⟨plan', -, heq⟩ := Option.map_eq_some_iff.mp (Option.mem_toList.mp h)
      obtain ⟨rfl, rfl⟩ := Prod.mk.inj heq
      rfl
  | _ => simp [Visit.asks, FilterEntry.asks] at h

/-- The aggregates of an entry pick their rows by one predicate, and nothing else has any. -/
lemma Visit.filter?_of_mem_requests {c : Compiler} {set : ProjectionSet} {v : Visit}
    {r : Projection} (hr : r ∈ v.requests c set) : r.expr.filter? = v.filter? c := by
  unfold Visit.requests at hr
  split at hr
  · next search hentry =>
    have hnone : v.filter? c = none := by
      simp only [Visit.filter?, hentry]
    rw [hnone]
    unfold Compiler.searchRequests at hr
    split at hr
    · simp at hr
    · rcases List.mem_cons.mp hr with rfl | hr
      · rfl
      · split at hr
        · obtain rfl := List.mem_singleton.mp hr
          rfl
        · simp at hr
  · obtain ⟨⟨plan, expr⟩, hasks, rfl⟩ := List.mem_map.mp hr
    exact Visit.filter?_of_mem_asks hasks

/-- What a visited entry requests is computed for the rows of its scope. -/
lemma Visit.scope_of_mem_requests {c : Compiler} {set : ProjectionSet} {v : Visit}
    {r : Projection} (hr : r ∈ v.requests c set) :
    r.scope = v.scope.rows := by
  unfold Visit.requests at hr
  split at hr
  · unfold Compiler.searchRequests at hr
    split at hr
    · simp at hr
    · rcases List.mem_cons.mp hr with rfl | hr
      · rfl
      · split at hr
        · obtain rfl := List.mem_singleton.mp hr
          rfl
        · simp at hr
  · obtain ⟨_, -, rfl⟩ := List.mem_map.mp hr
    rfl

lemma Visit.filter?_eq_some {c : Compiler} {v : Visit} {q : Predicate} (h : v.filter? c = some q) :
    ∃ a f fingerprint, v.entry = .aggregate a (some (f, fingerprint)) ∧
      c.conditionPredicate? v.scope a.relation f = some q := by
  unfold Visit.filter? at h
  split at h
  · next a condition hentry =>
    obtain ⟨⟨f, fingerprint⟩, rfl, hf⟩ := Option.bind_eq_some_iff.mp h
    exact ⟨a, f, fingerprint, hentry, hf⟩
  · simp at h

namespace Compiler

variable {c : Compiler} {set final : ProjectionSet} {s : Scope}

lemma collectSearch_eq {search : SearchFilter}
    (h : (c.collectSearch s search set).Initial final) :
    c.collectSearch s search set =
      (c.searchRequests final s search).foldl ProjectionSet.insert set := by
  unfold collectSearch searchRequests at *
  cases hplan : c.planSearch? s search with
  | none => rfl
  | some plan =>
    simp only [hplan] at h ⊢
    set document : Projection := ⟨plan.vector, .searchVector (plan.fields.map s.fieldPath)
      plan.config, s.rows⟩ with hdocument
    have hadd : add set s plan.vector (.searchVector (plan.fields.map s.fieldPath) plan.config) =
      set.insert document := rfl
    rw [hadd] at h ⊢
    -- the document is decided before the rank is asked for
    have hinitial : (set.insert document).Initial final := by
      refine ProjectionSet.Initial.trans ?_ h
      split
      · exact ProjectionSet.initial_insert _ _
      · exact .refl _
    have hlookup : final.lookup? plan.vector = (set.insert document).lookup? plan.vector :=
      hinitial.lookup?_eq (ProjectionSet.contains_insert set document)
    rw [hlookup, List.foldl_cons]
    rcases (set.insert document).lookup? plan.vector with _ | vector
    · rfl
    · rcases plan.rank with _ | rank <;> rfl

/-- Plans with their expressions are added one after the other. -/
lemma foldl_add_eq {α : Type} (plan? : α → Option Plan) (expr : α → ProjectionExpr) (s : Scope)
    (items : List α) (set : ProjectionSet) :
    items.foldl (fun set i =>
        match plan? i with
        | some p => add set s p.key (expr i)
        | none => set) set =
      ((items.filterMap fun i => (plan? i).map fun plan => (plan, expr i)).map
        fun (plan, expr) => (⟨plan.key, expr, s.rows⟩ : Projection)).foldl
          ProjectionSet.insert set := by
  induction items generalizing set with
  | nil => rfl
  | cons i items ih =>
    rw [List.foldl_cons, ih]
    cases hplan : plan? i with
    | none => simp [hplan]
    | some p => simp [hplan, add]

end Compiler

variable {c : Compiler} {set final : ProjectionSet}

/-- A visit adds its requests. -/
lemma Visit.collect_eq {v : Visit} (h : (v.collect c set).Initial final) :
    v.collect c set = (v.requests c final).foldl ProjectionSet.insert set := by
  obtain ⟨s, key, e⟩ := v
  cases e with
  | search search => exact Compiler.collectSearch_eq h
  | aggregate a condition => exact Compiler.foldl_add_eq _ _ s a.functions set
  | window items => exact Compiler.foldl_add_eq (c.planWindow? s) _ s items set
  | subquery items => exact Compiler.foldl_add_eq (c.planSubquery? s) _ s items set
  | trunc t =>
    simp only [Visit.collect, Compiler.collectOwn, Visit.requests, Visit.asks, FilterEntry.asks]
    cases c.planTrunc? s t <;> rfl
  | extract e =>
    simp only [Visit.collect, Compiler.collectOwn, Visit.requests, Visit.asks, FilterEntry.asks]
    cases c.planExtract? s e <;> rfl
  | count relation leaf =>
    simp only [Visit.collect, Compiler.collectOwn, Visit.requests, Visit.asks, FilterEntry.asks]
    split
    · rfl
    · cases c.planCount? s relation <;> rfl
  | _ => rfl

lemma Visit.initial_collect (c : Compiler) (set : ProjectionSet) (v : Visit) :
    set.Initial (v.collect c set) := by
  rw [Visit.collect_eq (.refl _)]
  exact ProjectionSet.initial_foldl_insert _ _

lemma Visit.initial_foldl_collect (c : Compiler) (visits : List Visit) (set : ProjectionSet) :
    set.Initial (visits.foldl (Visit.collect c) set) := by
  induction visits generalizing set with
  | nil => exact .refl set
  | cons v vs ih => exact (v.initial_collect c set).trans (ih _)

/-- Visits add their requests, read with a set that what is collected begins. -/
lemma Visit.foldl_collect_eq (visits : List Visit)
    (h : (visits.foldl (Visit.collect c) set).Initial final) :
    visits.foldl (Visit.collect c) set =
      (visits.flatMap (Visit.requests c final)).foldl ProjectionSet.insert set := by
  induction visits generalizing set with
  | nil => rfl
  | cons v vs ih =>
    rw [List.foldl_cons] at h ⊢
    rw [ih h, Visit.collect_eq ((Visit.initial_foldl_collect c vs _).trans h)]
    rw [List.flatMap_cons, List.foldl_append]

/-- The projections that a filter on an entity asks for, one after the other. -/
def Compiler.requests (c : Compiler) (f : Filter) (e : Entity) : List Projection :=
  (f.visits c { entity := e }).flatMap (Visit.requests c (c.projections f e))

/-- **What is collected is what is asked for**, the first request under each name. -/
theorem Compiler.projections_eq_requests (c : Compiler) (f : Filter) (e : Entity) :
    c.projections f e = .ofRequests (c.requests f e) := by
  have h : c.projections f e =
      (f.visits c { entity := e }).foldl (Visit.collect c) .empty :=
    Filter.collect_eq_foldl c _ _ f
  rw [h]
  exact Visit.foldl_collect_eq _ (by rw [← h]; exact .refl _)

/-- A filter is accepted if each of the three limits is kept. -/
lemma Limits.error?_eq_none_iff {limits : Limits} {f : Filter} :
    limits.error? f = none ↔ (∀ x ∈ f.patterns, limits.patternError? x = none) ∧
      f.depth ≤ limits.maxDepth ∧ f.clauses ≤ limits.maxClauses := by
  rw [← List.findSome?_eq_none_iff, ← Nat.not_lt, ← Nat.not_lt]
  unfold error?
  split
  · next hsome => simp [hsome]
  · next hnone =>
    by_cases hdepth : limits.maxDepth < f.depth <;>
      by_cases hclauses : limits.maxClauses < f.clauses <;> simp [hnone, hdepth, hclauses]

/-- A filter that keeps the limits compiles. -/
lemma Compiler.compile_eq_ok {f : Filter} {n : String} {e : Entity}
    (he : c.catalog.entity? n = some e) (hf : c.settings.limits.error? f = none) :
    c.compile f n = .ok ⟨c.projections f e, c.predicate? f e (c.projections f e)⟩ := by
  unfold compile
  rw [he]
  simp only [hf]

/-- What compiles keeps the limits, and both phases have run. -/
lemma Compiler.compile_eq_ok_iff {f : Filter} {n : String} {compiled : CompiledFilter} :
    c.compile f n = .ok compiled ↔
      ∃ e, c.catalog.entity? n = some e ∧ c.settings.limits.error? f = none ∧
        compiled = ⟨c.projections f e, c.predicate? f e (c.projections f e)⟩ := by
  constructor
  · intro h
    unfold compile at h
    split at h
    · simp at h
    · next e he =>
      split at h
      · simp at h
      · next hf => exact ⟨e, he, hf, (Except.ok.inj h).symm⟩
  · rintro ⟨e, he, hf, rfl⟩
    exact compile_eq_ok he hf

end EntityFilter
