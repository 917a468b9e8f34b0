import EntityFilter.Proofs.Requests

/-!
# Runs of insertions

Whoever adds a projection is answered with a handle, and uses it later, when more projections have
been added: the second phase of compilation reads handles of the first, and so do the ranks of a
search.  `ProjectionSet.reliable` says what can be relied on after any calls, on the empty set at
first, whether keys are repeated, names clash or neither.

A call does two things.  It changes the set as `ProjectionSet.insert` does, so that the set is that
of the requests (`ProjectionSet.after_eq`), and it only grows.  And it answers with what the key
finds in the set from then on (`ProjectionSet.register_fst`).  What a key finds never changes once
its name is taken, so the answer is also what the key finds after all later calls
(`ProjectionSet.lookup?_after`).
-/

namespace EntityFilter

namespace ProjectionSet

variable {s : ProjectionSet} {p q : Projection} {key : ProjectionKey} {h : ProjectionHandle}
  {calls before later : List Projection} {name : String}

/-! ## One call -/

lemma isSome_lookup?_of_get? (hq : s.byName.get? key.name = some q) :
    (s.lookup? key).isSome ↔ q.key = key := by
  rw [Option.isSome_iff_exists]
  constructor
  · rintro ⟨h, hh⟩
    obtain ⟨-, -, r, hr, hkey⟩ := lookup?_eq_some.mp hh
    obtain rfl : q = r := Option.some.inj (hq.symm.trans hr)
    exact hkey
  · intro hkey
    obtain ⟨i, hi⟩ := Option.isSome_iff_exists.mp (Entries.isSome_indexOf? hq)
    exact ⟨⟨i, key.name⟩, lookup?_eq_some.mpr ⟨rfl, hi, q, hq, hkey⟩⟩

lemma register_of_get? (hq : s.byName.get? p.name = some q) :
    s.register p = (s.lookup? p.key, s) := by
  obtain ⟨index, hi⟩ := Option.isSome_iff_exists.mp (Entries.isSome_indexOf? hq)
  have hi : s.byName.indexOf? p.name = some index := hi
  unfold register lookup?
  simp only [← show p.name = p.key.name from rfl, hq, hi]

lemma register_of_get?_eq_none (hp : s.byName.get? p.name = none) :
    s.register p = (some ⟨s.size, p.name⟩, ⟨s.byName.insert p.name p⟩) := by
  simp only [register, hp]

/-- A call changes the set by an insertion. -/
lemma register_snd (s : ProjectionSet) (p : Projection) : (s.register p).2 = s.insert p := by
  have hcontains : s.byName.contains p.name = (s.byName.get? p.name).isSome := rfl
  rw [insert, hcontains]
  cases hp : s.byName.get? p.name with
  | none =>
    rw [register_of_get?_eq_none hp]
    rfl
  | some q =>
    rw [register_of_get? hp]
    rfl

/-- A projection of a new name is found at the end. -/
lemma lookup?_insert_of_get?_eq_none (hp : s.byName.get? p.name = none) :
    (s.insert p).lookup? p.key = some ⟨s.size, p.name⟩ := by
  have hk : p.name ∉ Entries.keys s.byName.entries := Entries.get?_eq_none_iff.mp hp
  have hinsert : s.insert p = ⟨s.byName.insert p.name p⟩ := by
    rw [← register_snd, register_of_get?_eq_none hp]
  rw [hinsert]
  refine lookup?_eq_some.mpr ⟨rfl, ?_, p, OrderedMap.get?_insert_self _ _ _, rfl⟩
  show Entries.indexOf? p.name (Entries.insert p.name p s.byName.entries) = some s.size
  rw [Entries.insert_eq_append hk, Entries.indexOf?_concat_of_notMem hk]
  rfl

/-- **The answer to a call is what the key finds afterwards.** -/
lemma register_fst (s : ProjectionSet) (p : Projection) :
    (s.register p).1 = (s.insert p).lookup? p.key := by
  cases hp : s.byName.get? p.name with
  | none => rw [register_of_get?_eq_none hp, lookup?_insert_of_get?_eq_none hp]
  | some q => rw [← register_snd, register_of_get? hp]

/-- There is no answer if the name is that of another key. -/
lemma register_fst_eq_none_iff :
    (s.register p).1 = none ↔ ∃ q, s.byName.get? p.name = some q ∧ q.key ≠ p.key := by
  cases hp : s.byName.get? p.name with
  | none => simp [register_of_get?_eq_none hp]
  | some q =>
    rw [register_of_get? hp, ← Option.not_isSome_iff_eq_none, isSome_lookup?_of_get? hp]
    simp

/-! ## Any calls -/

/-- The set after some calls. -/
def after (calls : List Projection) : ProjectionSet :=
  calls.foldl (fun s p => (s.register p).2) .empty

/-- The answer to a call that comes after others. -/
def answer? (before : List Projection) (p : Projection) : Option ProjectionHandle :=
  ((after before).register p).1

lemma after_eq (calls : List Projection) : after calls = ofRequests calls := by
  unfold after ofRequests
  congr 1
  funext s p
  exact register_snd s p

lemma after_concat (calls : List Projection) (p : Projection) :
    after (calls ++ [p]) = ((after calls).register p).2 := by
  simp [after]

lemma after_append (before later : List Projection) :
    after (before ++ later) = later.foldl insert (after before) := by
  rw [after_eq, after_eq, ofRequests, List.foldl_append]
  rfl

lemma answer?_eq (before : List Projection) (p : Projection) :
    answer? before p = (after (before ++ [p])).lookup? p.key := by
  rw [answer?, register_fst, after_concat, register_snd]

/-- **An answer stays what the key finds**, whatever is called later. -/
lemma lookup?_after (before : List Projection) (p : Projection) (later : List Projection) :
    (after (before ++ p :: later)).lookup? p.key = answer? before p := by
  have hinitial : Initial (after (before ++ [p])) (after (before ++ p :: later)) := by
    rw [List.append_cons before p later, after_append (before ++ [p]) later]
    exact initial_foldl_insert later _
  rw [answer?_eq]
  refine hinitial.lookup?_eq ?_
  rw [after_concat, register_snd]
  exact contains_insert _ _

/-! ## What is in the set -/

lemma mem_toList_after :
    q ∈ (after calls).toList ↔ (after calls).byName.get? q.key.name = some q := by
  constructor
  · intro hq
    rw [after_eq] at hq ⊢
    obtain ⟨h, hlookup, hget⟩ := exists_lookup?_of_mem hq
    obtain ⟨q', hget', -, hq'⟩ := get?_of_lookup? hlookup
    obtain rfl : q = q' := Option.some.inj (hget.symm.trans hget')
    exact hq'
  · intro hq
    exact List.mem_map.mpr ⟨_, Entries.mem_of_get? hq, rfl⟩

/-- Each projection is stored under the name of its key. -/
lemma map_name_after (calls : List Projection) :
    (after calls).toList.map Projection.name = (after calls).names := by
  rw [after_eq]
  exact map_name_toList_ofRequests calls

/-- What is stored under a name has this name. -/
lemma exists_mem_toList_after {P : Projection → Prop} :
    (∃ q ∈ (after calls).toList, q.key.name = name ∧ P q) ↔
      ∃ q, (after calls).byName.get? name = some q ∧ P q := by
  constructor
  · rintro ⟨q, hq, rfl, hP⟩
    exact ⟨q, mem_toList_after.mp hq, hP⟩
  · rintro ⟨q, hq, hP⟩
    have hname : q.key.name = name := by
      rw [after_eq, get?_ofRequests] at hq
      have hfound := List.find?_some hq
      exact of_decide_eq_true hfound
    subst hname
    exact ⟨q, mem_toList_after.mpr hq, rfl, hP⟩

/-- The handle of a key has its name, which stands at its place. -/
lemma names_of_lookup? (hk : (after calls).lookup? key = some h) :
    h.name = key.name ∧ (after calls).names[h.index]? = some h.name := by
  obtain ⟨hname, -, -⟩ := lookup?_eq_some.mp hk
  obtain ⟨q, hget, hkey, -⟩ := get?_of_lookup? hk
  refine ⟨hname, ?_⟩
  have hplace : (after calls).toList[h.index]? = some q := hget
  rw [← map_name_after, List.getElem?_map, hplace, hname, ← hkey]
  rfl

lemma get?_after_of_lookup? (hk : (after calls).lookup? key = some h) :
    (after calls).get? h = calls.find? (·.key = key) := by
  rw [after_eq] at hk ⊢
  exact get?_ofRequests_of_lookup? hk

/-! ## What can be relied on -/

/-- What can be relied on after some calls. -/
structure Reliable (calls : List Projection) : Prop where
  /-- No two projections have the same name. -/
  distinct : (after calls).names.Nodup
  /-- Each is stored under the name of its key. -/
  named : (after calls).toList.map (·.key.name) = (after calls).names
  /-- The first one under a name stays, with its expression and its scope. -/
  first : ∀ name, (after calls).ofName? name = calls.find? (·.key.name = name)
  /-- There is no answer exactly if the name is that of another key. -/
  rejects : ∀ p, ((after calls).register p).1 = none ↔
    ∃ q ∈ (after calls).toList, q.key.name = p.key.name ∧ q.key ≠ p.key
  /-- A call with a name that is taken changes nothing. -/
  unchanged : ∀ p, (∃ q ∈ (after calls).toList, q.key.name = p.key.name) →
    ((after calls).register p).2 = after calls
  /-- The handle of an answer denotes one projection from then on, at its place and under its
  name: that of the first call with the key. -/
  denotes : ∀ before p later h, calls = before ++ p :: later → answer? before p = some h →
    h.name = p.key.name ∧ (after calls).names[h.index]? = some h.name ∧
    ∃ q, q.key = p.key ∧ (before ++ [p]).find? (·.key = p.key) = some q ∧
      (after (before ++ [p])).get? h = some q ∧ (after calls).get? h = some q
  /-- A key finds the handle that calls with this key have been answered with, and nothing if there
  was no such answer. -/
  finds : ∀ key h, (after calls).lookup? key = some h ↔
    ∃ before p later, calls = before ++ p :: later ∧ p.key = key ∧ answer? before p = some h

/-- **After any calls the set and the handles can be relied on.** -/
theorem reliable (calls : List Projection) : Reliable calls where
  distinct := (after calls).byName.nodup
  named := map_name_after calls
  first name := by
    rw [after_eq]
    exact get?_ofRequests calls name
  rejects p := by
    rw [register_fst_eq_none_iff, exists_mem_toList_after]
    rfl
  unchanged p := by
    rintro ⟨q, hq, hname⟩
    rw [register_of_get?]
    rw [mem_toList_after, hname] at hq
    exact hq
  denotes before p later h := by
    rintro rfl hanswer
    -- the key finds the handle right after the call and after all later ones
    have hthen : (after (before ++ [p])).lookup? p.key = some h := by
      rw [← answer?_eq, hanswer]
    have hnow : (after (before ++ p :: later)).lookup? p.key = some h := by
      rw [lookup?_after, hanswer]
    obtain ⟨q, hget, hkey, -⟩ := get?_of_lookup? hthen
    have hfirst : (before ++ [p]).find? (·.key = p.key) = some q := by
      rw [← get?_after_of_lookup? hthen, hget]
    have hstays : (before ++ p :: later).find? (·.key = p.key) = some q := by
      rw [List.append_cons, List.find?_append, hfirst]
      rfl
    obtain ⟨hname, hplace⟩ := names_of_lookup? hnow
    refine ⟨hname, hplace, q, hkey, hfirst, hget, ?_⟩
    rw [get?_after_of_lookup? hnow, hstays]
  finds key h := by
    constructor
    · intro hk
      obtain ⟨q, hget, -, -⟩ := get?_of_lookup? hk
      rw [get?_after_of_lookup? hk] at hget
      obtain ⟨hkey, before, later, rfl, -⟩ := List.find?_eq_some_iff_append.mp hget
      obtain rfl : q.key = key := of_decide_eq_true hkey
      exact ⟨before, q, later, rfl, rfl, by rw [← lookup?_after, hk]⟩
    · rintro ⟨before, p, later, rfl, rfl, hanswer⟩
      rw [lookup?_after, hanswer]

-- the second search vector has the name of the first, and the last call repeats the first one
example :
    let count : Projection := ⟨.count (.single "reviews"), .count (.single "reviews"), .root⟩
    let vector (field : String) : Projection :=
      ⟨.searchVector .root [field] "simple", .searchVector [.single field] "simple", .root⟩
    answer? [] count = some ⟨0, "reviews_count"⟩ ∧
      answer? [count] (vector "name") = some ⟨1, "search_vector"⟩ ∧
      answer? [count, vector "name"] (vector "text") = none ∧
      answer? [count, vector "name", vector "text"] count = some ⟨0, "reviews_count"⟩ := by
  decide +kernel

end ProjectionSet

end EntityFilter
