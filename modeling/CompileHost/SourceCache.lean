import CompileHost.Path.Canonical
import CompileHost.Path.Dependency
import Std.Data.TreeMap

/-!
# Parsed sources by generation

The cache keeps what was parsed in the current generation and in the one before.  A source is
parsed only if neither of them holds it with the same contents, so a file that does not change
keeps what was made of it for as long as every generation asks for it.

* `reusable?` finds what can be taken over, the current generation first.
* `add` takes over or parses, records the source, and tells every observer.
* `reset` starts a generation, and forgets the last but one.
-/

namespace CompileHost

/-- Something parsed, known by the number of the parse that made it.  Two with one number are the
same thing. -/
structure Parsed (P : Type) where
  serial : Nat
  value : P
  deriving DecidableEq

/-- What is kept of a source. -/
structure SourceRecord (P : Type) where
  name : String
  contents : String
  parsed : Parsed P
  version : Nat
  isRoot : Bool
  isDependency : Bool
  deriving DecidableEq

/-- An observer learns of a source. -/
structure Notice where
  observer : String
  path : CanonicalPath
  name : String
  deriving DecidableEq

abbrev SourceTable (P : Type) := Std.TreeMap CanonicalPath (SourceRecord P)

/-- The sources of two generations, the observers in the order of their subscription, all notices
that they were given, and the number of parses so far. -/
structure SourceCache (P : Type) where
  current : SourceTable P
  previous : SourceTable P
  generation : Nat
  observers : List String
  notices : List Notice
  parses : Nat

namespace SourceCache

variable {P : Type}

def empty : SourceCache P where
  current := ∅
  previous := ∅
  generation := 0
  observers := []
  notices := []
  parses := 0

def subscribe (cache : SourceCache P) (observer : String) : SourceCache P :=
  { cache with observers := cache.observers ++ [observer] }

/-- Starts a generation. -/
def reset (cache : SourceCache P) : SourceCache P :=
  { cache with
    current := ∅
    previous := cache.current
    generation := cache.generation + 1 }

def get? (cache : SourceCache P) (path : CanonicalPath) : Option (SourceRecord P) :=
  cache.current[path]?

def getPrevious? (cache : SourceCache P) (path : CanonicalPath) : Option (SourceRecord P) :=
  cache.previous[path]?

@[simp]
theorem get?_reset (cache : SourceCache P) (path : CanonicalPath) :
    cache.reset.get? path = none := by
  simp [get?, reset]

@[simp]
theorem getPrevious?_reset (cache : SourceCache P) (path : CanonicalPath) :
    cache.reset.getPrevious? path = cache.get? path := rfl

/-- The record of either generation that holds a source with the same contents. -/
def reusable? (cache : SourceCache P) (path : CanonicalPath) (contents : String) :
    Option (SourceRecord P) :=
  ((cache.get? path).filter (·.contents = contents)).or
    ((cache.getPrevious? path).filter (·.contents = contents))

/-- Records a source, and tells the observers. -/
def record (cache : SourceCache P) (path : CanonicalPath) (source : SourceRecord P) :
    SourceCache P :=
  { cache with
    current := cache.current.insert path source
    notices := cache.notices ++ cache.observers.map fun observer => ⟨observer, path, source.name⟩ }

theorem get?_record (cache : SourceCache P) (path other : CanonicalPath)
    (source : SourceRecord P) :
    (cache.record path source).get? other = if path = other then some source
      else cache.get? other := by
  simp [get?, record, Std.TreeMap.getElem?_insert]

@[simp]
theorem getPrevious?_record (cache : SourceCache P) (path other : CanonicalPath)
    (source : SourceRecord P) :
    (cache.record path source).getPrevious? other = cache.getPrevious? other := rfl

/-- What is parsed of a source: taken over where possible, and parsed otherwise. -/
def obtain (cache : SourceCache P) (path : CanonicalPath) (name contents : String)
    (parse : String → String → P) : SourceCache P × Parsed P × Nat :=
  match cache.reusable? path contents with
  | some source => (cache, source.parsed, source.version)
  | none =>
    let serial := cache.parses + 1
    ({ cache with parses := serial }, ⟨serial, parse name contents⟩, cache.generation)

/-- Parsing leaves the tables alone. -/
theorem get?_obtain (cache : SourceCache P) (path other : CanonicalPath) (name contents : String)
    (parse : String → String → P) :
    (cache.obtain path name contents parse).1.get? other = cache.get? other := by
  unfold obtain
  split <;> rfl

theorem getPrevious?_obtain (cache : SourceCache P) (path other : CanonicalPath)
    (name contents : String) (parse : String → String → P) :
    (cache.obtain path name contents parse).1.getPrevious? other = cache.getPrevious? other := by
  unfold obtain
  split <;> rfl

/-- Adds a source to the current generation. -/
def add (cache : SourceCache P) (path : CanonicalPath) (name contents : String) (isRoot : Bool)
    (parse : String → String → P) : SourceCache P × Parsed P :=
  let (cache, parsed, version) := cache.obtain path name contents parse
  let source : SourceRecord P :=
    { name, contents, parsed, version, isRoot
      isDependency := Path.isDependencyModule path.text }
  (cache.record path source, parsed)

/-- The paths of the current generation with a property, in order. -/
def pathsWhere (cache : SourceCache P) (p : SourceRecord P → Bool) : List CanonicalPath :=
  (cache.current.toList.filter fun entry => p entry.2).map (·.1)

def rootPaths (cache : SourceCache P) : List CanonicalPath :=
  cache.pathsWhere (·.isRoot)

def dependencyPaths (cache : SourceCache P) : List CanonicalPath :=
  cache.pathsWhere (·.isDependency)

def observedPaths (cache : SourceCache P) : List CanonicalPath :=
  cache.pathsWhere fun _ => true

/-- A one-line description of the cache by numbers. -/
def summary (cache : SourceCache P) : String :=
  "FileVersionCache \x7b generation: " ++ toString cache.generation ++
    ", current: " ++ toString cache.current.size ++
    ", previous: " ++ toString cache.previous.size ++
    ", observers: " ++ toString cache.observers.length ++ " \x7d"

end SourceCache

end CompileHost
