import EntityFilter.FilterSchema.Draft
import EntityFilter.Number.Binary64

/-!
# A cache of schemas

Schemas are kept once they have been made, up to a number.  When there are more, a tenth of them is
dropped, rounded up; which ones is up to the order in which they are dropped, and a schema may be
dropped right after it has been made.  The answers do not depend on it.
-/

namespace EntityFilter

/-- What a schema is made for. -/
structure SchemaKey where
  /-- What the names of filters begin with. -/
  scope : String
  /-- The name of the entity. -/
  entity : String
  /-- The depth of the entity. -/
  depth : Nat
  deriving DecidableEq, Repr

/-- The order in which schemas are dropped. -/
structure EvictionOrder where
  /-- Put keys that are given from the oldest to the newest into that order. -/
  arrange : List SchemaKey → List SchemaKey
  /-- No key is lost or added. -/
  perm : ∀ keys, (arrange keys).Perm keys

/-- The oldest first. -/
def EvictionOrder.oldestFirst : EvictionOrder := ⟨id, fun keys => .refl keys⟩

instance : Inhabited EvictionOrder := ⟨.oldestFirst⟩

/-- A schema that has been made, and the number of the request that has made it. -/
structure MadeSchema where
  /-- The number of the request. -/
  serial : Nat
  /-- The schema. -/
  schema : FilterSchema
  deriving DecidableEq

/-- Schemas that are kept, and what has happened so far. -/
structure SchemaCache where
  /-- The entities. -/
  catalog : Catalog
  /-- The settings. -/
  settings : Settings := {}
  /-- The order in which schemas are dropped. -/
  order : EvictionOrder := .oldestFirst
  /-- The schemas that are kept. -/
  kept : OrderedMap SchemaKey MadeSchema := .empty
  /-- The number of requests that were answered with a schema that was kept. -/
  hits : Nat := 0
  /-- The number of the other requests. -/
  misses : Nat := 0
  /-- The number of schemas that were dropped. -/
  evictions : Nat := 0

namespace SchemaCache

/-- The number of schemas that are kept. -/
def size (c : SchemaCache) : Nat := c.kept.size

/-- The part of all requests that were answered with a schema that was kept. -/
def hitRate (c : SchemaCache) : Float :=
  if c.hits + c.misses = 0 then 0
  else Binary64.ofInt c.hits / Binary64.ofInt ((c.hits + c.misses : Nat) : Int)

/-- The schema for a key, made anew. -/
def make? (c : SchemaCache) (key : SchemaKey) : Option FilterSchema :=
  ({ catalog := c.catalog, settings := c.settings, scope := key.scope } : FilterLanguage).generate?
    key.entity key.depth

/-- The keys that are dropped when there are too many. -/
def victims (c : SchemaCache) : List SchemaKey :=
  if c.settings.schema.cacheMaxSize < c.size then
    (c.order.arrange c.kept.keys).take ((c.size + 9) / 10)
  else []

/-- Drop a tenth of the schemas if there are too many. -/
def evict (c : SchemaCache) : SchemaCache :=
  { c with kept := c.kept.without c.victims, evictions := c.evictions + c.victims.length }

/-- Keep a schema. -/
def keep (c : SchemaCache) (key : SchemaKey) (made : MadeSchema) : SchemaCache :=
  evict { c with kept := c.kept.insert key made }

/-- Ask for a schema.  The answer is one that is kept, or one that is made for the request and kept
from then on. -/
def request (c : SchemaCache) (key : SchemaKey) : Option MadeSchema × SchemaCache :=
  match c.kept.get? key with
  | some made => (some made, { c with hits := c.hits + 1 })
  | none =>
    let c := { c with misses := c.misses + 1 }
    match c.make? key with
    | none => (none, c)
    | some schema =>
      let made := ⟨c.hits + c.misses, schema⟩
      (some made, c.keep key made)

/-- Drop all schemas. -/
def clear (c : SchemaCache) : SchemaCache := { c with kept := .empty }

end SchemaCache

end EntityFilter
