import CompileHost.Proofs.Cache.Addition
import Mathlib.Data.List.Nodup
import Mathlib.Data.Option.Basic

/-!
# The history of a cache

A cache is determined by the calls made to it.  The log of a run holds its calls, the last one
first, with what every addition handed out and what it cost; what a cache should know is read off
the log without a look at the tables.

* `Follows`: the current generation holds the last addition of every path since the last reset, the
  one before holds the last addition between the last two resets, and everything in either was
  parsed for its path, from its contents, in the generation that its version names.
* `Obtains`: how an addition comes by what it hands out.
* `KeepsAdding`: a source that every generation of a stretch adds with the same contents.  It keeps
  one handle, and is not parsed again in that stretch (`Finds.follow`).
* `run_refines_history`: all of this, for every sequence of calls.
-/

namespace CompileHost.SourceCache

variable {P : Type}

/-! ## Calls and their log -/

/-- One call to a cache. -/
inductive Call (P : Type) where
  | subscribe (observer : String)
  | reset
  | add (path : CanonicalPath) (name contents : String) (isRoot : Bool)
      (parse : String → String → P)

/-- An addition, what it handed out, and the number of parses that it took. -/
structure Addition (P : Type) where
  path : CanonicalPath
  name : String
  contents : String
  isRoot : Bool
  parsed : Parsed P
  parses : Nat

/-- An addition to a cache, as the log remembers it. -/
def addition (cache : SourceCache P) (path : CanonicalPath) (name contents : String)
    (isRoot : Bool) (parse : String → String → P) : Addition P where
  path
  name
  contents
  isRoot
  parsed := (cache.add path name contents isRoot parse).2
  parses := (cache.add path name contents isRoot parse).1.parses - cache.parses

/-- What is remembered of a call. -/
inductive Event (P : Type) where
  | subscribed (observer : String)
  | reset
  | added (a : Addition P)

/-- A cache with the log of its calls, the last one first. -/
structure Logged (P : Type) where
  cache : SourceCache P
  log : List (Event P)

/-- One more call. -/
def Logged.step (s : Logged P) : Call P → Logged P
  | .subscribe observer => ⟨s.cache.subscribe observer, .subscribed observer :: s.log⟩
  | .reset => ⟨s.cache.reset, .reset :: s.log⟩
  | .add path name contents isRoot parse =>
    ⟨(s.cache.add path name contents isRoot parse).1,
      .added (s.cache.addition path name contents isRoot parse) :: s.log⟩

/-- Further calls, in order. -/
def Logged.follow (s : Logged P) (calls : List (Call P)) : Logged P :=
  calls.foldl Logged.step s

/-- The calls to a cache that is new. -/
def Logged.run (calls : List (Call P)) : Logged P :=
  Logged.follow ⟨.empty, []⟩ calls

/-! ## What the log tells -/

/-- The number of resets. -/
def resets : List (Event P) → Nat
  | [] => 0
  | .reset :: earlier => resets earlier + 1
  | _ :: earlier => resets earlier

/-- The last addition of a path since the last reset. -/
def lastAddition? (path : CanonicalPath) : List (Event P) → Option (Addition P)
  | [] => none
  | .reset :: _ => none
  | .added a :: earlier => if a.path = path then some a else lastAddition? path earlier
  | .subscribed _ :: earlier => lastAddition? path earlier

/-- The log as it was before the last reset. -/
def beforeReset : List (Event P) → List (Event P)
  | [] => []
  | .reset :: earlier => earlier
  | _ :: earlier => beforeReset earlier

/-- The handles that were parsed, the last one first. -/
def newSerials : List (Event P) → List Nat
  | [] => []
  | .added a :: earlier =>
    if a.parses = 0 then newSerials earlier else a.parsed.serial :: newSerials earlier
  | _ :: earlier => newSerials earlier

/-- The number of parses that the additions of a path took. -/
def parsesOf (path : CanonicalPath) : List (Event P) → Nat
  | [] => 0
  | .added a :: earlier => (if a.path = path then a.parses else 0) + parsesOf path earlier
  | _ :: earlier => parsesOf path earlier

theorem parsesOf_append (path : CanonicalPath) (later earlier : List (Event P)) :
    parsesOf path (later ++ earlier) = parsesOf path later + parsesOf path earlier := by
  induction later with
  | nil => exact (Nat.zero_add _).symm
  | cons event later ih => cases event <;> simp [parsesOf, ih, Nat.add_assoc]

/-- A handle was parsed for a path, from these contents, in this generation. -/
def ParsedAt (log : List (Event P)) (path : CanonicalPath) (contents : String)
    (parsed : Parsed P) (generation : Nat) : Prop :=
  ∃ later a earlier, log = later ++ .added a :: earlier ∧ a.path = path ∧
    a.contents = contents ∧ a.parsed = parsed ∧ a.parses = 1 ∧ resets earlier = generation

/-- The record that an addition leaves, but for its version. -/
structure Addition.Leaves (a : Addition P) (source : SourceRecord P) : Prop where
  name : source.name = a.name
  contents : source.contents = a.contents
  parsed : source.parsed = a.parsed
  isRoot : source.isRoot = a.isRoot
  isDependency : source.isDependency = Path.isDependencyModule a.path.text

/-- A cache is as its log tells. -/
structure Follows (log : List (Event P)) (cache : SourceCache P) : Prop where
  generation : cache.generation = resets log
  current : ∀ path, Option.Rel Addition.Leaves (lastAddition? path log) (cache.get? path)
  previous : ∀ path,
    Option.Rel Addition.Leaves (lastAddition? path (beforeReset log)) (cache.getPrevious? path)
  origin : ∀ path source, cache.get? path = some source ∨ cache.getPrevious? path = some source →
    ParsedAt log path source.contents source.parsed source.version
  distinct : (newSerials log).Nodup
  bounded : ∀ serial ∈ newSerials log, serial ≤ cache.parses

/-- How an addition comes by what it hands out, and the number of parses that it takes. -/
inductive Obtains (cache : SourceCache P) (path : CanonicalPath) (name contents : String)
    (parse : String → String → P) : Parsed P → Nat → Prop where
  | current (source : SourceRecord P) (hCurrent : cache.get? path = some source)
      (hSame : source.contents = contents) : Obtains cache path name contents parse source.parsed 0
  | previous (source : SourceRecord P)
      (hChanged : ∀ s, cache.get? path = some s → s.contents ≠ contents)
      (hPrevious : cache.getPrevious? path = some source)
      (hSame : source.contents = contents) : Obtains cache path name contents parse source.parsed 0
  | parsed (hChanged : ∀ s, cache.get? path = some s → s.contents ≠ contents)
      (hChanged' : ∀ s, cache.getPrevious? path = some s → s.contents ≠ contents) :
      Obtains cache path name contents parse ⟨cache.parses + 1, parse name contents⟩ 1

/-- Every addition of the path has the contents, and each generation that begins and ends within
the calls adds the path. -/
structure KeepsAdding (path : CanonicalPath) (contents : String) (calls : List (Call P)) :
    Prop where
  same : ∀ name c isRoot parse, .add path name c isRoot parse ∈ calls → c = contents
  each : ∀ before between after, calls = before ++ .reset :: between ++ .reset :: after →
    ∃ name c isRoot parse, .add path name c isRoot parse ∈ between

/-! ## One call -/

theorem ParsedAt.weaken {log : List (Event P)} {path : CanonicalPath} {contents : String}
    {parsed : Parsed P} {generation : Nat} (h : ParsedAt log path contents parsed generation)
    (event : Event P) : ParsedAt (event :: log) path contents parsed generation := by
  obtain ⟨later, a, earlier, rfl, rest⟩ := h
  exact ⟨event :: later, a, earlier, rfl, rest⟩

theorem Follows.subscribe {log : List (Event P)} {cache : SourceCache P}
    (h : Follows log cache) (observer : String) :
    Follows (.subscribed observer :: log) (cache.subscribe observer) where
  generation := h.generation
  current := h.current
  previous := h.previous
  origin path source hSource := (h.origin path source hSource).weaken _
  distinct := h.distinct
  bounded := h.bounded

theorem Follows.reset {log : List (Event P)} {cache : SourceCache P} (h : Follows log cache) :
    Follows (.reset :: log) cache.reset where
  generation := congrArg (· + 1) h.generation
  current path := by
    rw [get?_reset]
    exact .none
  previous := h.current
  origin path source hSource := by
    rw [get?_reset, getPrevious?_reset] at hSource
    rcases hSource with hNone | hSource
    · cases hNone
    · exact (h.origin path source (Or.inl hSource)).weaken _
  distinct := h.distinct
  bounded := h.bounded

section Addition

variable {log : List (Event P)} {cache : SourceCache P} (h : Follows log cache)
  (path : CanonicalPath) (name contents : String) (isRoot : Bool) (parse : String → String → P)

theorem parses_addition :
    (cache.addition path name contents isRoot parse).parses =
      if (cache.reusable? path contents).isSome then 0 else 1 := by
  simp only [addition, parses_add, Nat.add_sub_cancel_left]

include h

/-- What an addition hands out was parsed for its path from its contents, before or just now. -/
theorem Follows.parsedAt_add :
    ParsedAt (.added (cache.addition path name contents isRoot parse) :: log) path contents
      (cache.add path name contents isRoot parse).2 (cache.versionFor path contents) := by
  unfold versionFor
  cases hReuse : cache.reusable? path contents with
  | none =>
    refine ⟨[], _, log, rfl, rfl, rfl, rfl, ?_, h.generation.symm⟩
    rw [parses_addition, hReuse]
    rfl
  | some source =>
    have hOrigin := h.origin path source (recorded_of_reusable? hReuse)
    rw [(reusable?_eq_some_iff.1 hReuse).1] at hOrigin
    rw [add_snd_of_reusable _ _ _ hReuse]
    exact hOrigin.weaken _

/-- The serials stay apart, since a new one exceeds all before it. -/
theorem Follows.serials_add :
    (newSerials (.added (cache.addition path name contents isRoot parse) :: log)).Nodup ∧
      ∀ serial ∈ newSerials (.added (cache.addition path name contents isRoot parse) :: log),
        serial ≤ (cache.add path name contents isRoot parse).1.parses := by
  rw [parses_add, newSerials, parses_addition]
  cases hReuse : cache.reusable? path contents with
  | some source => exact ⟨h.distinct, h.bounded⟩
  | none =>
    have hSerial : (cache.addition path name contents isRoot parse).parsed.serial =
        cache.parses + 1 := by
      rw [addition, add_snd_of_fresh _ _ _ hReuse]
    simp only [Option.isSome_none, Bool.false_eq_true, if_false, Nat.one_ne_zero, hSerial,
      List.nodup_cons, List.mem_cons]
    refine ⟨⟨fun hMem => ?_, h.distinct⟩, ?_⟩
    · have := h.bounded _ hMem
      omega
    · rintro serial (rfl | hMem)
      · exact Nat.le_refl _
      · exact Nat.le_succ_of_le (h.bounded _ hMem)

theorem Follows.add :
    Follows (.added (cache.addition path name contents isRoot parse) :: log)
      (cache.add path name contents isRoot parse).1 where
  generation := by
    rw [generation_add]
    exact h.generation
  current other := by
    rw [get?_add, lastAddition?]
    by_cases hPath : path = other
    · rw [if_pos hPath, if_pos (show (cache.addition ..).path = other from hPath)]
      exact .some ⟨rfl, rfl, rfl, rfl, rfl⟩
    · rw [if_neg hPath, if_neg (show ¬ (cache.addition ..).path = other from hPath)]
      exact h.current other
  previous other := by
    rw [getPrevious?_add]
    exact h.previous other
  origin other source hSource := by
    rw [get?_add, getPrevious?_add] at hSource
    by_cases hPath : path = other
    · rw [if_pos hPath] at hSource
      rcases hSource with hNew | hOld
      · cases hNew
        subst hPath
        exact h.parsedAt_add path name contents isRoot parse
      · exact (h.origin other source (Or.inr hOld)).weaken _
    · rw [if_neg hPath] at hSource
      exact (h.origin other source hSource).weaken _
  distinct := (h.serials_add path name contents isRoot parse).1
  bounded := (h.serials_add path name contents isRoot parse).2

end Addition

theorem Follows.step {s : Logged P} (h : Follows s.log s.cache) (call : Call P) :
    Follows (s.step call).log (s.step call).cache := by
  cases call with
  | subscribe observer => exact h.subscribe observer
  | reset => exact h.reset
  | add path name contents isRoot parse => exact h.add path name contents isRoot parse

theorem Follows.follow {s : Logged P} (h : Follows s.log s.cache) (calls : List (Call P)) :
    Follows (s.follow calls).log (s.follow calls).cache := by
  induction calls generalizing s with
  | nil => exact h
  | cons call calls ih => exact ih (h.step call)

theorem follows_empty : Follows ([] : List (Event P)) .empty where
  generation := rfl
  current path := by
    simp only [get?, empty, Std.TreeMap.getElem?_emptyc]
    exact .none
  previous path := by
    simp only [getPrevious?, empty, Std.TreeMap.getElem?_emptyc]
    exact .none
  origin path source hSource := by simp [get?, getPrevious?, empty] at hSource
  distinct := List.nodup_nil
  bounded serial hMem := by cases hMem

/-- An addition comes by what it hands out in one of three ways. -/
theorem obtains_add (cache : SourceCache P) (path : CanonicalPath) (name contents : String)
    (isRoot : Bool) (parse : String → String → P) :
    Obtains cache path name contents parse (cache.addition path name contents isRoot parse).parsed
      (cache.addition path name contents isRoot parse).parses := by
  rw [parses_addition, addition]
  cases hReuse : cache.reusable? path contents with
  | none =>
    rw [add_snd_of_fresh _ _ _ hReuse]
    obtain ⟨hCurrent, hPrevious⟩ := reusable?_eq_none_iff.1 hReuse
    exact .parsed hCurrent hPrevious
  | some source =>
    rw [add_snd_of_reusable _ _ _ hReuse]
    rcases reusable?_eq_some_iff.1 hReuse with ⟨hSame, hCurrent | ⟨hChanged, hPrevious⟩⟩
    · exact .current source hCurrent hSame
    · exact .previous source hChanged hPrevious hSame

/-! ## A source that does not change -/

theorem KeepsAdding.tail {path : CanonicalPath} {contents : String} {call : Call P}
    {calls : List (Call P)} (h : KeepsAdding path contents (call :: calls)) :
    KeepsAdding path contents calls where
  same name c isRoot parse hMem := h.same name c isRoot parse (List.mem_cons_of_mem _ hMem)
  each before between after hSplit :=
    h.each (call :: before) between after (by rw [hSplit, List.cons_append, List.cons_append])

theorem keepsAdding_nil (path : CanonicalPath) (contents : String) :
    KeepsAdding path contents ([] : List (Call P)) where
  same _ _ _ _ hMem := by cases hMem
  each before between after hSplit := by cases before <;> cases hSplit

section KeepsAdding

variable {path : CanonicalPath} {name contents : String} {isRoot : Bool}
  {parse : String → String → P} {calls : List (Call P)}

theorem KeepsAdding.cons_add (h : KeepsAdding path contents calls) :
    KeepsAdding path contents (.add path name contents isRoot parse :: calls) where
  same name' c isRoot' parse' hMem := by
    rcases List.mem_cons.1 hMem with hHere | hLater
    · cases hHere
      rfl
    · exact h.same name' c isRoot' parse' hLater
  each before between after hSplit := by
    cases before with
    | nil => cases hSplit
    | cons first before => exact h.each before between after (List.cons.inj hSplit).2

/-- One more generation that begins with an addition. -/
theorem KeepsAdding.cons_reset_add
    (h : KeepsAdding path contents (.add path name contents isRoot parse :: calls)) :
    KeepsAdding path contents (.reset :: .add path name contents isRoot parse :: calls) where
  same name' c isRoot' parse' hMem := by
    rcases List.mem_cons.1 hMem with hHere | hLater
    · cases hHere
    · exact h.same name' c isRoot' parse' hLater
  each before between after hSplit := by
    cases before with
    | nil =>
      cases between with
      | nil => cases hSplit
      | cons call between =>
        have hCall := (List.cons.inj (List.cons.inj hSplit).2).1
        exact ⟨name, contents, isRoot, parse, hCall ▸ List.mem_cons_self⟩
    | cons first before => exact h.each before between after (List.cons.inj hSplit).2

end KeepsAdding

/-- Two resets without an addition between them end the stretch. -/
theorem not_keepsAdding_reset_reset {path : CanonicalPath} {contents : String}
    {calls : List (Call P)} : ¬ KeepsAdding path contents (.reset :: .reset :: calls) := by
  intro h
  obtain ⟨_, _, _, _, hMem⟩ := h.each [] [] calls rfl
  cases hMem

/-- Another call in the first generation of the stretch may be left out. -/
theorem KeepsAdding.skip {path : CanonicalPath} {contents : String} {call : Call P}
    {calls : List (Call P)} (h : KeepsAdding path contents (.reset :: call :: calls))
    (hOther : ∀ name c isRoot parse, .add path name c isRoot parse ≠ call) :
    KeepsAdding path contents (.reset :: calls) where
  same name c isRoot parse hMem := by
    refine h.same name c isRoot parse ?_
    rcases List.mem_cons.1 hMem with hReset | hMem
    · cases hReset
    · exact List.mem_cons_of_mem _ (List.mem_cons_of_mem _ hMem)
  each before between after hSplit := by
    cases before with
    | nil =>
      have hCalls : calls = between ++ .reset :: after := by simpa using hSplit
      obtain ⟨name, c, isRoot, parse, hMem⟩ :=
        h.each [] (call :: between) after (by rw [hCalls]; rfl)
      rcases List.mem_cons.1 hMem with hCall | hMem
      · exact absurd hCall (hOther name c isRoot parse)
      · exact ⟨name, c, isRoot, parse, hMem⟩
    | cons first before =>
      have hCalls : calls = before ++ .reset :: between ++ .reset :: after := by
        simpa using (List.cons.inj hSplit).2
      exact h.each (.reset :: call :: before) between after (by rw [hCalls]; rfl)

/-- The calls to come find the handle of a path: this generation holds it, or the one before did
and this one has not yet been asked for the path. -/
inductive Finds (cache : SourceCache P) (path : CanonicalPath) (contents : String)
    (parsed : Parsed P) (calls : List (Call P)) : Prop where
  | current (source : SourceRecord P) (hGet : cache.get? path = some source)
      (hSame : source.contents = contents) (hParsed : source.parsed = parsed)
      (hKeeps : KeepsAdding path contents calls)
  | previous (source : SourceRecord P) (hNone : cache.get? path = none)
      (hGet : cache.getPrevious? path = some source) (hSame : source.contents = contents)
      (hParsed : source.parsed = parsed) (hKeeps : KeepsAdding path contents (.reset :: calls))

theorem Finds.keepsAdding {cache : SourceCache P} {path : CanonicalPath} {contents : String}
    {parsed : Parsed P} {calls : List (Call P)}
    (h : Finds cache path contents parsed calls) : KeepsAdding path contents calls := by
  cases h with
  | current source hGet hSame hParsed hKeeps => exact hKeeps
  | previous source hNone hGet hSame hParsed hKeeps => exact hKeeps.tail

theorem Finds.reusable {cache : SourceCache P} {path : CanonicalPath} {contents : String}
    {parsed : Parsed P} {calls : List (Call P)}
    (h : Finds cache path contents parsed calls) :
    ∃ source, cache.reusable? path contents = some source ∧ source.parsed = parsed := by
  cases h with
  | current source hGet hSame hParsed hKeeps =>
    exact ⟨source, reusable?_eq_some_iff.2 ⟨hSame, Or.inl hGet⟩, hParsed⟩
  | previous source hNone hGet hSame hParsed hKeeps =>
    refine ⟨source, reusable?_eq_some_iff.2 ⟨hSame, Or.inr ⟨fun s hs => ?_, hGet⟩⟩, hParsed⟩
    rw [hNone] at hs
    cases hs

theorem Finds.subscribe {cache : SourceCache P} {path : CanonicalPath} {contents : String}
    {parsed : Parsed P} {calls : List (Call P)} {observer : String}
    (h : Finds cache path contents parsed (.subscribe observer :: calls)) :
    Finds (cache.subscribe observer) path contents parsed calls := by
  cases h with
  | current source hGet hSame hParsed hKeeps =>
    exact .current source hGet hSame hParsed hKeeps.tail
  | previous source hNone hGet hSame hParsed hKeeps =>
    exact .previous source hNone hGet hSame hParsed (hKeeps.skip (by simp))

theorem Finds.reset {cache : SourceCache P} {path : CanonicalPath} {contents : String}
    {parsed : Parsed P} {calls : List (Call P)}
    (h : Finds cache path contents parsed (.reset :: calls)) :
    Finds cache.reset path contents parsed calls := by
  cases h with
  | current source hGet hSame hParsed hKeeps =>
    exact .previous source (get?_reset cache path) hGet hSame hParsed hKeeps
  | previous source hNone hGet hSame hParsed hKeeps =>
    exact absurd hKeeps not_keepsAdding_reset_reset

theorem Finds.add {cache : SourceCache P} {path other : CanonicalPath} {contents name c : String}
    {parsed : Parsed P} {isRoot : Bool} {parse : String → String → P} {calls : List (Call P)}
    (h : Finds cache path contents parsed (.add other name c isRoot parse :: calls)) :
    Finds (cache.add other name c isRoot parse).1 path contents parsed calls := by
  by_cases hPath : other = path
  · subst hPath
    have hContents : c = contents := h.keepsAdding.same _ _ _ _ List.mem_cons_self
    subst hContents
    obtain ⟨source, hReuse, hParsed⟩ := h.reusable
    have hGet := (get?_add cache other name c isRoot parse other).trans (if_pos rfl)
    refine .current _ hGet rfl ?_ h.keepsAdding.tail
    rw [← hParsed]
    exact add_snd_of_reusable name isRoot parse hReuse
  · have hGet : (cache.add other name c isRoot parse).1.get? path = cache.get? path := by
      rw [get?_add, if_neg hPath]
    cases h with
    | current source hCurrent hSame hParsed hKeeps =>
      exact .current source (hGet.trans hCurrent) hSame hParsed hKeeps.tail
    | previous source hNone hPrevious hSame hParsed hKeeps =>
      refine .previous source (hGet.trans hNone) ?_ hSame hParsed (hKeeps.skip ?_)
      · rw [getPrevious?_add, hPrevious]
      · rintro _ _ _ _ ⟨⟩
        exact hPath rfl

/-- Of a source that is found every addition hands out the one handle, without a parse. -/
theorem Finds.follow {s : Logged P} {path : CanonicalPath} {contents : String}
    {parsed : Parsed P} {calls : List (Call P)}
    (h : Finds s.cache path contents parsed calls) :
    ∃ newer, (s.follow calls).log = newer ++ s.log ∧ parsesOf path newer = 0 ∧
      ∀ a, .added a ∈ newer → a.path = path → a.parsed = parsed := by
  induction calls generalizing s with
  | nil => exact ⟨[], rfl, rfl, by simp⟩
  | cons call calls ih =>
    obtain ⟨event, hLog, hNext, hCost, hHandle⟩ : ∃ event,
        (s.step call).log = event :: s.log ∧ Finds (s.step call).cache path contents parsed calls ∧
          parsesOf path [event] = 0 ∧
          ∀ a, event = .added a → a.path = path → a.parsed = parsed := by
      cases call with
      | subscribe observer => exact ⟨_, rfl, h.subscribe, rfl, by simp⟩
      | reset => exact ⟨_, rfl, h.reset, rfl, by simp⟩
      | add other name c isRoot parse =>
        have hReuse : other = path → ∃ source,
            s.cache.reusable? other c = some source ∧ source.parsed = parsed := by
          rintro rfl
          obtain rfl : c = contents := h.keepsAdding.same _ _ _ _ List.mem_cons_self
          exact h.reusable
        refine ⟨_, rfl, h.add, ?_, ?_⟩
        · rw [parsesOf, parses_addition]
          by_cases hPath : other = path
          · obtain ⟨source, hSome, -⟩ := hReuse hPath
            simp [hSome, parsesOf]
          · simp [addition, hPath, parsesOf]
        · rintro a ⟨⟩ hPath
          obtain ⟨source, hSome, hParsed⟩ := hReuse hPath
          rw [← hParsed]
          exact add_snd_of_reusable name isRoot parse hSome
    obtain ⟨newer, hNewer, hRest, hAll⟩ := ih hNext
    refine ⟨newer ++ [event], ?_, ?_, ?_⟩
    · rw [Logged.follow, List.foldl_cons, ← Logged.follow, hNewer, hLog, List.append_assoc]
      rfl
    · rw [parsesOf_append, hRest, hCost]
    · intro a hMem hPath
      rcases List.mem_append.1 hMem with hMem | hMem
      · exact hAll a hMem hPath
      · exact hHandle a (List.mem_singleton.1 hMem).symm hPath

/-- **A cache refines its history.**  After every sequence of calls the cache is as its log tells;
the next addition takes over from this generation, else from the one before, else parses once, and
asks the parser for nothing but the given name and contents; and a source that every generation
adds with the same contents keeps one handle, and takes no parse but that of the first of these
additions. -/
theorem run_refines_history (calls : List (Call P)) :
    Follows (Logged.run calls).log (Logged.run calls).cache ∧
      (∀ path name contents isRoot parse,
        let cache := (Logged.run calls).cache
        let a := cache.addition path name contents isRoot parse
        Obtains cache path name contents parse a.parsed a.parses ∧
          ∀ parse', a.parses = 0 ∨ parse' name contents = parse name contents →
            cache.add path name contents isRoot parse' =
              cache.add path name contents isRoot parse) ∧
      ∀ path name contents isRoot parse rest,
        KeepsAdding path contents (.add path name contents isRoot parse :: rest) →
        ∃ newer,
          (Logged.run (calls ++ .add path name contents isRoot parse :: rest)).log =
            newer ++ (Logged.run calls).log ∧
          parsesOf path newer =
            ((Logged.run calls).cache.addition path name contents isRoot parse).parses ∧
          ∀ a, .added a ∈ newer → a.path = path →
            a.parsed = ((Logged.run calls).cache.add path name contents isRoot parse).2 := by
  refine ⟨Follows.follow follows_empty calls, ?_, ?_⟩
  · intro path name contents isRoot parse
    refine ⟨obtains_add .., fun parse' hSame => add_congr _ _ _ _ _ fun hNone => ?_⟩
    rcases hSame with hCost | hSame
    · rw [parses_addition, hNone] at hCost
      cases hCost
    · exact hSame
  · intro path name contents isRoot parse rest hKeeps
    let s := Logged.run calls
    let first : Call P := .add path name contents isRoot parse
    have hGet := (get?_add s.cache path name contents isRoot parse path).trans (if_pos rfl)
    have hFinds : Finds (s.step first).cache path contents
        (s.cache.add path name contents isRoot parse).2 rest :=
      .current _ hGet rfl rfl hKeeps.tail
    obtain ⟨newer, hLog, hCost, hHandle⟩ := hFinds.follow
    refine ⟨newer ++ [.added (s.cache.addition path name contents isRoot parse)], ?_, ?_, ?_⟩
    · rw [Logged.run, Logged.follow, List.foldl_append, List.foldl_cons, List.append_assoc]
      exact hLog
    · have hPath : (s.cache.addition path name contents isRoot parse).path = path := rfl
      rw [parsesOf_append, hCost, parsesOf, if_pos hPath, parsesOf, Nat.zero_add, Nat.add_zero]
    · intro a hMem hPath
      rcases List.mem_append.1 hMem with hMem | hMem
      · exact hHandle a hMem hPath
      · cases List.mem_singleton.1 hMem
        rfl

/-- A source that three generations add with the same contents is parsed once. -/
theorem run_refines_history_unchanged :
    let add : Call String := .add ⟨"/a"⟩ "a" "text" true fun _ contents => contents
    KeepsAdding ⟨"/a"⟩ "text" [add, .reset, add, .reset, add] ∧
      ∃ newer, (Logged.run [add, .reset, add, .reset, add]).log = newer ++ [] ∧
        parsesOf ⟨"/a"⟩ newer = 1 := by
  intro add
  have hKeeps : KeepsAdding ⟨"/a"⟩ "text" [add, .reset, add, .reset, add] :=
    (keepsAdding_nil _ _).cons_add.cons_reset_add.cons_add.cons_reset_add.cons_add
  obtain ⟨newer, hLog, hCost, -⟩ := (run_refines_history []).2.2 _ _ _ _ _ _ hKeeps
  exact ⟨hKeeps, newer, hLog, hCost⟩

end CompileHost.SourceCache
