import EntityFilter.FilterSchema.Cache
import EntityFilter.Proofs.DraftedSchemas
import EntityFilter.Proofs.Maps

/-!
# Runs of a cache of schemas

A cache answers requests and drops its schemas when it is told to; in between it drops schemas on its
own, in an order that may be another one for each call (`CacheCall`).  A run is counted from outside:
`SchemaCache.total` adds up a number that belongs to each call, given the cache at that time.

What a call preserves is `SchemaCache.Sound`: the schemas that are kept are those that would be made,
and there are not too many of them.  What a call does to the numbers that a cache keeps about itself
are the two equations `step_answers` and `step_balance`; they hold of every cache, so they need no
invariant.  `cache_transparent` puts the three together along a run.
-/

namespace EntityFilter

/-- What a cache can be told. -/
inductive CacheCall where
  /-- Answer a request; schemas are dropped in that order if there are too many. -/
  | request (key : SchemaKey) (order : EvictionOrder)
  /-- Drop all schemas. -/
  | clear

namespace SchemaCache

/-- The answer to a request, without the number of the request that has made it. -/
def answer? (c : SchemaCache) (key : SchemaKey) (order : EvictionOrder) : Option FilterSchema :=
  (({ c with order := order }).request key).1.map MadeSchema.schema

/-- The cache after a call. -/
def step (c : SchemaCache) : CacheCall → SchemaCache
  | .request key order => (({ c with order := order }).request key).2
  | .clear => c.clear

/-- The cache after some calls. -/
def after (c : SchemaCache) (calls : List CacheCall) : SchemaCache := calls.foldl step c

/-- The sum of the numbers that belong to the calls of a run. -/
def total (count : SchemaCache → CacheCall → Nat) : SchemaCache → List CacheCall → Nat
  | _, [] => 0
  | c, call :: calls => count c call + total count (c.step call) calls

/-- The number of requests that a call makes. -/
def requested (_ : SchemaCache) : CacheCall → Nat
  | .request .. => 1
  | .clear => 0

/-- The number of requests that a call makes for a schema that is not kept, on an entity that
exists. -/
def requestedAnew (c : SchemaCache) : CacheCall → Nat
  | .request key _ =>
    if c.kept.get? key = none ∧ c.catalog.entity? key.entity ≠ none then 1 else 0
  | .clear => 0

/-- The number of schemas that a call drops because it is told to. -/
def cleared (c : SchemaCache) : CacheCall → Nat
  | .request .. => 0
  | .clear => c.size

/-! ### What a call does -/

lemma make?_eq_none_iff {c : SchemaCache} {key : SchemaKey} :
    c.make? key = none ↔ c.catalog.entity? key.entity = none := by
  simp [make?, FilterLanguage.generate?_eq, FilterLanguage.schema?]

section Eviction

variable (c : SchemaCache)

/-- The keys of a cache consist of those that are dropped and those that are not. -/
lemma length_victims_add : c.evict.size + c.victims.length = c.size := by
  unfold evict victims
  split
  case isFalse => simp [size, OrderedMap.without]
  case isTrue =>
    set arranged := c.order.arrange c.kept.keys
    set number := (c.size + 9) / 10
    have hperm : arranged.Perm c.kept.keys := c.order.perm _
    have hnodup : (arranged.take number ++ arranged.drop number).Nodup := by
      rw [List.take_append_drop]
      exact hperm.nodup_iff.2 c.kept.nodup
    have hkept : arranged.filter (· ∉ arranged.take number) = arranged.drop number := by
      conv_lhs => rw [← List.take_append_drop number arranged]
      rw [List.filter_append, List.filter_eq_nil_iff.2 (by simp), List.nil_append]
      refine List.filter_eq_self.2 fun key hkey => ?_
      simp only [List.take_append_drop, decide_not, Bool.not_eq_true', decide_eq_false_iff_not]
      exact fun htaken => (List.nodup_append.1 hnodup).2.2 _ htaken _ hkey rfl
    have hlength : (c.kept.keys.filter (· ∉ arranged.take number)).length
        = (arranged.drop number).length := by
      rw [← hkept]
      exact ((hperm.filter _).length_eq).symm
    have hall := congrArg List.length (List.take_append_drop number arranged)
    simp only [List.length_append, hperm.length_eq] at hall
    simp only [size, OrderedMap.size_eq_length_keys, OrderedMap.keys_without, hlength]
    omega

/-- When there are too many schemas, at least one is dropped. -/
lemma size_evict_le (h : c.size ≤ c.settings.schema.cacheMaxSize + 1) :
    c.evict.size ≤ c.settings.schema.cacheMaxSize := by
  have hsum := length_victims_add c
  by_cases hmany : c.settings.schema.cacheMaxSize < c.size
  · have hlength : c.victims.length = min ((c.size + 9) / 10) c.size := by
      rw [victims, if_pos hmany, List.length_take, (c.order.perm _).length_eq]
      exact congrArg _ (OrderedMap.size_eq_length_keys _).symm
    omega
  · omega

end Eviction

section Step

variable {c : SchemaCache} {key : SchemaKey}

/-- What a request does: it finds a schema that is kept, there is no such entity, or a schema is made
and kept. -/
lemma request_cases (c : SchemaCache) (key : SchemaKey) :
    (∃ made, c.kept.get? key = some made ∧
      c.request key = (some made, { c with hits := c.hits + 1 })) ∨
    (c.kept.get? key = none ∧ c.catalog.entity? key.entity = none ∧
      c.request key = (none, { c with misses := c.misses + 1 })) ∨
    (∃ made, c.kept.get? key = none ∧ c.catalog.entity? key.entity ≠ none ∧
      c.make? key = some made.schema ∧
      c.request key = (some made, ({ c with misses := c.misses + 1 }).keep key made)) := by
  cases hkept : c.kept.get? key with
  | some made => exact .inl ⟨made, rfl, by simp [request, hkept]⟩
  | none =>
    refine .inr ?_
    have hmake : ({ c with misses := c.misses + 1 } : SchemaCache).make? key = c.make? key := rfl
    cases hmade : c.make? key with
    | none =>
      exact .inl ⟨rfl, make?_eq_none_iff.1 hmade, by simp [request, hkept, hmake, hmade]⟩
    | some schema =>
      refine .inr ⟨⟨c.hits + (c.misses + 1), schema⟩, rfl, fun h => ?_, rfl,
        by simp [request, hkept, hmake, hmade]⟩
      simp [make?_eq_none_iff.2 h] at hmade

/-- The catalog and the settings stay, so what is made for a key does not change. -/
lemma step_catalog (c : SchemaCache) (call : CacheCall) :
    (c.step call).catalog = c.catalog ∧ (c.step call).settings = c.settings := by
  cases call with
  | clear => exact ⟨rfl, rfl⟩
  | request key order =>
    obtain ⟨_, _, h⟩ | ⟨_, _, h⟩ | ⟨_, _, _, _, h⟩ := request_cases { c with order := order } key <;>
      simp [step, h, keep, evict]

lemma step_make? (c : SchemaCache) (call : CacheCall) (key : SchemaKey) :
    (c.step call).make? key = c.make? key := by
  simp [make?, step_catalog c call]

/-- Every request is answered with a schema that was kept, or counted as one that was not. -/
lemma step_answers (c : SchemaCache) (call : CacheCall) :
    (c.step call).hits + (c.step call).misses = c.hits + c.misses + c.requested call := by
  cases call with
  | clear => rfl
  | request key order =>
    obtain ⟨_, _, h⟩ | ⟨_, _, h⟩ | ⟨_, _, _, _, h⟩ := request_cases { c with order := order } key <;>
      simp only [step, h, keep, evict, requested] <;> omega

/-- A schema that is made is kept, or dropped by the cache, or dropped because it is told to. -/
lemma step_balance (c : SchemaCache) (call : CacheCall) :
    (c.step call).evictions + (c.step call).size + c.cleared call
      = c.evictions + c.size + c.requestedAnew call := by
  cases call with
  | clear => simp [step, clear, size, cleared, requestedAnew, OrderedMap.size, OrderedMap.empty]
  | request key order =>
    obtain ⟨_, hkept, h⟩ | ⟨hkept, hnone, h⟩ | ⟨made, hkept, hsome, _, h⟩ :=
      request_cases { c with order := order } key
    · simp [step, h, cleared, requestedAnew, hkept, size]
    · simp [step, h, cleared, requestedAnew, hnone, size]
    · have hsum := length_victims_add
        { c with order := order, misses := c.misses + 1, kept := c.kept.insert key made }
      have hsize : (c.kept.insert key made).size = c.size + 1 :=
        OrderedMap.size_insert_of_get?_eq_none made hkept
      simp only [size, hsize] at hsum
      have hnew : c.requestedAnew (.request key order) = 1 := if_pos ⟨hkept, hsome⟩
      simp only [step, h, keep, cleared, hnew]
      simp only [evict, size] at hsum ⊢
      omega

end Step

/-! ### What a call preserves -/

/-- The schemas that are kept are those that would be made, and there are not too many. -/
structure Sound (c : SchemaCache) : Prop where
  /-- A schema that is kept is the one that would be made. -/
  kept_eq : ∀ key made, c.kept.get? key = some made → c.make? key = some made.schema
  /-- There are not too many. -/
  size_le : c.size ≤ c.settings.schema.cacheMaxSize

namespace Sound

variable {c : SchemaCache}

/-- Nothing is kept at first. -/
lemma fresh (catalog : Catalog) (settings : Settings) :
    Sound { catalog := catalog, settings := settings } where
  kept_eq _ _ h := by simp [OrderedMap.empty, OrderedMap.get?, Entries.get?] at h
  size_le := Nat.zero_le _

lemma keep (hc : c.Sound) {key : SchemaKey} {made : MadeSchema} (hkept : c.kept.get? key = none)
    (hmade : c.make? key = some made.schema) : (c.keep key made).Sound where
  kept_eq key' made' h := by
    have h := OrderedMap.get?_without h
    by_cases hkey : key' = key
    · subst hkey
      rw [OrderedMap.get?_insert_self] at h
      cases h
      exact hmade
    · rw [OrderedMap.get?_insert_of_ne _ hkey] at h
      exact hc.kept_eq key' made' h
  size_le := by
    refine size_evict_le _ ?_
    have hsize : (c.kept.insert key made).size = c.size + 1 :=
      OrderedMap.size_insert_of_get?_eq_none made hkept
    have hle := hc.size_le
    simp only [size] at hsize hle ⊢
    omega

lemma step (hc : c.Sound) (call : CacheCall) : (c.step call).Sound := by
  cases call with
  | clear => exact ⟨(fresh c.catalog c.settings).kept_eq, Nat.zero_le _⟩
  | request key order =>
    obtain ⟨_, _, h⟩ | ⟨_, _, h⟩ | ⟨made, hkept, _, hmade, h⟩ :=
      request_cases { c with order := order } key
    all_goals rw [SchemaCache.step, h]
    · exact ⟨hc.kept_eq, hc.size_le⟩
    · exact ⟨hc.kept_eq, hc.size_le⟩
    · have hsame : Sound { c with order := order, misses := c.misses + 1 } :=
        ⟨hc.kept_eq, hc.size_le⟩
      exact hsame.keep hkept hmade

/-- A sound cache answers with what would be made. -/
lemma answer? (hc : c.Sound) (key : SchemaKey) (order : EvictionOrder) :
    c.answer? key order = c.make? key := by
  obtain ⟨made, hkept, h⟩ | ⟨_, hnone, h⟩ | ⟨made, _, _, hmade, h⟩ :=
    request_cases { c with order := order } key
  all_goals rw [SchemaCache.answer?, h]
  · exact (hc.kept_eq key made hkept).symm
  · exact (make?_eq_none_iff.2 hnone).symm
  · exact hmade.symm

end Sound

/-! ### Runs -/

section Runs

variable {c : SchemaCache} (calls : List CacheCall)

lemma Sound.after (hc : c.Sound) : (c.after calls).Sound := by
  induction calls generalizing c with
  | nil => exact hc
  | cons call calls ih => exact ih (hc.step call)

lemma after_settings : (c.after calls).settings = c.settings := by
  induction calls generalizing c with
  | nil => rfl
  | cons call calls ih => exact ih.trans (step_catalog c call).2

lemma after_make? (key : SchemaKey) : (c.after calls).make? key = c.make? key := by
  induction calls generalizing c with
  | nil => rfl
  | cons call calls ih => exact ih.trans (step_make? c call key)

lemma after_answers :
    (c.after calls).hits + (c.after calls).misses
      = c.hits + c.misses + c.total requested calls := by
  induction calls generalizing c with
  | nil => rfl
  | cons call calls ih =>
    have hstep := step_answers c call
    have hrest := ih (c := c.step call)
    simp only [after, List.foldl_cons, total] at hrest ⊢
    omega

lemma after_balance :
    (c.after calls).evictions + (c.after calls).size + c.total cleared calls
      = c.evictions + c.size + c.total requestedAnew calls := by
  induction calls generalizing c with
  | nil => rfl
  | cons call calls ih =>
    have hstep := step_balance c call
    have hrest := ih (c := c.step call)
    simp only [after, List.foldl_cons, total] at hrest ⊢
    omega

end Runs

/-- **Whether a schema was kept makes no difference to an answer, and the numbers that a cache keeps
about itself are right.**  After any calls, whatever was dropped in between: the next request is
answered as a new cache would answer it, with a schema unless there is no such entity; there are at
most as many schemas as are allowed; every request is counted as one that found a schema or as one
that did not; and every schema that was made is there, or was dropped for want of room, or was dropped
because the cache was told to. -/
theorem cache_transparent (catalog : Catalog) (settings : Settings) (calls : List CacheCall) :
    let new : SchemaCache := { catalog := catalog, settings := settings }
    let c := new.after calls
    (∀ key order order',
      (c.answer? key order = none ↔ catalog.entity? key.entity = none) ∧
      c.answer? key order = new.answer? key order') ∧
    c.size ≤ settings.schema.cacheMaxSize ∧
    c.hits + c.misses = new.total requested calls ∧
    c.evictions + c.size + new.total cleared calls = new.total requestedAnew calls := by
  intro new c
  have hnew : new.Sound := .fresh catalog settings
  have hc : c.Sound := hnew.after calls
  have hanswer (key : SchemaKey) (order : EvictionOrder) : c.answer? key order = new.make? key :=
    (hc.answer? key order).trans (after_make? calls key)
  refine ⟨fun key order order' => ⟨?_, ?_⟩, ?_, ?_, ?_⟩
  · rw [hanswer, make?_eq_none_iff]
  · rw [hanswer, hnew.answer?]
  · simpa [c, new, after_settings] using hc.size_le
  · simpa [new] using after_answers (c := new) calls
  · have hzero : new.evictions + new.size = 0 := rfl
    simpa only [hzero, Nat.zero_add] using after_balance (c := new) calls

end SchemaCache

end EntityFilter
