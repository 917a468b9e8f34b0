/-!
# Maps in the order of insertion

Filters, rows, catalogs and generated types all keep their entries in the order in which the
keys were first written, and answers show that order.  `Entries` holds the operations on a bare
list of pairs: a document uses them on the members of an object, where a tree type cannot carry a
proof.  `OrderedMap` is the same list together with the fact that no key occurs twice.

Storing under a key that is already there keeps the place of the key and replaces its value.  The
statement that pins this down is `Entries.keys_insert`: the keys after an insertion are the old
ones, with the new key at the end if it was missing.
-/

namespace EntityFilter

namespace Entries

variable {κ : Type u} {α : Type v}

/-- The keys, in order. -/
def keys (es : List (κ × α)) : List κ := es.map Prod.fst

variable [DecidableEq κ]

/-- The value of the first pair that carries the key. -/
def get? (k : κ) : List (κ × α) → Option α
  | [] => none
  | (k', v) :: es => if k' = k then some v else get? k es

/-- Store a value: in place when the key is there, at the end when it is not. -/
def insert (k : κ) (v : α) : List (κ × α) → List (κ × α)
  | [] => [(k, v)]
  | (k', v') :: es => if k' = k then (k, v) :: es else (k', v') :: insert k v es

/-- Apply a function to the value stored under a key. -/
def modify (k : κ) (f : α → α) : List (κ × α) → List (κ × α)
  | [] => []
  | (k', v) :: es => if k' = k then (k', f v) :: es else (k', v) :: modify k f es

/-- Whether some pair carries the key. -/
def contains (k : κ) (es : List (κ × α)) : Bool := (get? k es).isSome

/-- The place of the first pair that carries the key. -/
def indexOf? (k : κ) (es : List (κ × α)) : Option Nat := (keys es).findIdx? (· = k)

/-- Store pairs one after the other, so a repeated key keeps its first place and its last value. -/
def ofPairs (pairs : List (κ × α)) : List (κ × α) :=
  pairs.foldl (fun es p => insert p.1 p.2 es) []

omit [DecidableEq κ] in
@[simp] theorem keys_nil : keys ([] : List (κ × α)) = [] := rfl

omit [DecidableEq κ] in
@[simp] theorem keys_cons (p : κ × α) (es : List (κ × α)) : keys (p :: es) = p.1 :: keys es := rfl

theorem keys_insert (k : κ) (v : α) (es : List (κ × α)) :
    keys (insert k v es) = if k ∈ keys es then keys es else keys es ++ [k] := by
  induction es with
  | nil => simp [insert]
  | cons p es ih =>
    obtain ⟨k', v'⟩ := p
    by_cases h : k' = k
    · subst h; simp [insert]
    · by_cases hm : k ∈ keys es <;> simp [insert, h, hm, ih, Ne.symm h]

theorem nodup_keys_insert {es : List (κ × α)} (h : (keys es).Nodup) (k : κ) (v : α) :
    (keys (insert k v es)).Nodup := by
  rw [keys_insert]
  split
  · exact h
  · next hk => exact List.nodup_append.2 ⟨h, by simp, by
      intro a ha b hb hab
      rw [List.mem_singleton.1 hb] at hab
      exact hk (hab ▸ ha)⟩

theorem get?_insert_self (k : κ) (v : α) (es : List (κ × α)) : get? k (insert k v es) = some v := by
  induction es with
  | nil => simp [insert, get?]
  | cons p es ih =>
    obtain ⟨k', v'⟩ := p
    by_cases h : k' = k <;> simp [insert, get?, h, ih]

theorem get?_insert_of_ne {k k' : κ} (hk : k' ≠ k) (v : α) (es : List (κ × α)) :
    get? k' (insert k v es) = get? k' es := by
  induction es with
  | nil => simp [insert, get?, Ne.symm hk]
  | cons p es ih =>
    obtain ⟨k'', v'⟩ := p
    by_cases h : k'' = k
    · subst h; simp [insert, get?, Ne.symm hk]
    · by_cases h' : k'' = k'
      · subst h'; simp [insert, get?, hk]
      · simp [insert, get?, h, h', ih]

end Entries

/-- Pairs in the order in which their keys were first stored, each key once. -/
structure OrderedMap (κ : Type u) (α : Type v) where
  /-- The pairs, in order. -/
  entries : List (κ × α)
  /-- No key occurs twice. -/
  nodup : (Entries.keys entries).Nodup

namespace OrderedMap

variable {κ : Type u} {α : Type v} {β : Type w}

/-- The map without entries. -/
def empty : OrderedMap κ α := ⟨[], List.nodup_nil⟩

instance : Inhabited (OrderedMap κ α) := ⟨empty⟩

instance : EmptyCollection (OrderedMap κ α) := ⟨empty⟩

/-- The keys, in order. -/
def keys (m : OrderedMap κ α) : List κ := Entries.keys m.entries

/-- The values, in the order of their keys. -/
def values (m : OrderedMap κ α) : List α := m.entries.map Prod.snd

/-- The number of entries. -/
def size (m : OrderedMap κ α) : Nat := m.entries.length

/-- Whether there are no entries. -/
def isEmpty (m : OrderedMap κ α) : Bool := m.entries.isEmpty

/-- Apply a function to all values. -/
def mapValues (f : α → β) (m : OrderedMap κ α) : OrderedMap κ β :=
  ⟨m.entries.map fun e => (e.1, f e.2), by
    have hkeys : Entries.keys (m.entries.map fun e => (e.1, f e.2)) = Entries.keys m.entries := by
      simp [Entries.keys]
    rw [hkeys]
    exact m.nodup⟩

variable [DecidableEq κ]

instance [DecidableEq α] : DecidableEq (OrderedMap κ α) := fun a b =>
  decidable_of_iff (a.entries = b.entries) ⟨fun h => by cases a; cases b; cases h; rfl, fun h => h ▸ rfl⟩

/-- The value stored under a key. -/
def get? (m : OrderedMap κ α) (k : κ) : Option α := Entries.get? k m.entries

/-- Whether a value is stored under a key. -/
def contains (m : OrderedMap κ α) (k : κ) : Bool := Entries.contains k m.entries

/-- The place of a key. -/
def indexOf? (m : OrderedMap κ α) (k : κ) : Option Nat := Entries.indexOf? k m.entries

/-- Store a value under a key. -/
def insert (m : OrderedMap κ α) (k : κ) (v : α) : OrderedMap κ α :=
  ⟨Entries.insert k v m.entries, Entries.nodup_keys_insert m.nodup k v⟩

/-- Store pairs one after the other into the empty map. -/
def ofList (pairs : List (κ × α)) : OrderedMap κ α :=
  pairs.foldl (fun m p => m.insert p.1 p.2) empty

/-- Leave out the entries of some keys. -/
def without (m : OrderedMap κ α) (ks : List κ) : OrderedMap κ α :=
  ⟨m.entries.filter fun e => e.1 ∉ ks, by
    have h := m.nodup.sublist ((m.entries.filter_sublist (p := fun e => e.1 ∉ ks)).map Prod.fst)
    exact h⟩

theorem get?_insert_self (m : OrderedMap κ α) (k : κ) (v : α) : (m.insert k v).get? k = some v :=
  Entries.get?_insert_self k v m.entries

theorem get?_insert_of_ne (m : OrderedMap κ α) {k k' : κ} (h : k' ≠ k) (v : α) :
    (m.insert k v).get? k' = m.get? k' :=
  Entries.get?_insert_of_ne h v m.entries

end OrderedMap

end EntityFilter
