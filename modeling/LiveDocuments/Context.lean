/-!
# Contexts

A context stands for the data at one absolute path. It carries no data, only the
path, and a serial number by which instances are told apart: two contexts are
the same instance if their serial numbers agree, and equal if their paths do. A
cache hands out one instance per path and never uses a serial number twice, also
not after it has been cleared.
-/

namespace LiveDocuments

/-- A handle to the data at a path. -/
structure Context where
  path : String
  serial : Nat
deriving DecidableEq

namespace Context

/-- Whether two contexts are one instance. -/
def isSame (a b : Context) : Bool := a.serial == b.serial

/-- Whether two contexts, or their absence, are one instance. -/
def areSame : Option Context → Option Context → Bool
  | some a, some b => a.isSame b
  | none, none => true
  | _, _ => false

end Context

/-- One context per path. -/
structure ContextCache where
  entries : List Context
  nextSerial : Nat

namespace ContextCache

/-- The cache that holds nothing. -/
def empty : ContextCache := ⟨[], 0⟩

/-- The context held for a path. -/
def get? (cache : ContextCache) (path : String) : Option Context :=
  cache.entries.find? fun c => c.path = path

/-- The context for a path, made on first use. -/
def getOrCreate (cache : ContextCache) (path : String) : Context × ContextCache :=
  match cache.get? path with
  | some context => (context, cache)
  | none =>
      let context : Context := ⟨path, cache.nextSerial⟩
      (context, ⟨cache.entries ++ [context], cache.nextSerial + 1⟩)

/-- The contexts for several paths, in order. -/
def getOrCreateAll (cache : ContextCache) : List String → List Context × ContextCache
  | [] => ([], cache)
  | path :: rest =>
      let (context, cache) := cache.getOrCreate path
      let (contexts, cache) := cache.getOrCreateAll rest
      (context :: contexts, cache)

/-- How many contexts are held. -/
def size (cache : ContextCache) : Nat := cache.entries.length

/-- Whether nothing is held. -/
def isEmpty (cache : ContextCache) : Bool := cache.entries.isEmpty

/-- The cache with nothing held; serial numbers go on. -/
def clear (cache : ContextCache) : ContextCache := { cache with entries := [] }

end ContextCache

end LiveDocuments
