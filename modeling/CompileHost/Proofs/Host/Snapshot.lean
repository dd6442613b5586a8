import CompileHost.Proofs.Cache.History
import CompileHost.Proofs.Host.Diagnostics

/-!
# One snapshot in a generation

What a host hands out for a file it hands out for the rest of the generation, by whatever spelling
the file is asked for and whatever becomes of the file tree: the record is there, and a request
finds it.  A request in vain leaves no trace.

Within a pass the cache is asked for additions alone.  While the tree stays as it is, all additions
of a file have the same contents, so at most the first of them is parsed.

* `parsesOf_follow_le_one`: additions of one path with the same contents.
* `cache_performAll`: the cache behind calls to a host is the cache behind what they ask of it.
* `generation_is_snapshot`: both of these for hosts.
-/

namespace CompileHost

namespace SourceCache

variable {P : Type}

/-! ## A stretch without resets -/

/-- Where no generation ends, none has to be shown to add the path. -/
theorem keepsAdding_of_no_reset {path : CanonicalPath} {contents : String} {calls : List (Call P)}
    (hSame : ∀ name c isRoot parse, .add path name c isRoot parse ∈ calls → c = contents)
    (hReset : .reset ∉ calls) : KeepsAdding path contents calls where
  same := hSame
  each before between after hSplit := by
    refine absurd ?_ hReset
    rw [hSplit]
    exact List.mem_append_right _ List.mem_cons_self

/-- An addition costs one parse at most. -/
theorem parses_addition_le_one (cache : SourceCache P) (path : CanonicalPath)
    (name contents : String) (isRoot : Bool) (parse : String → String → P) :
    (cache.addition path name contents isRoot parse).parses ≤ 1 := by
  rw [parses_addition]
  split <;> omega

theorem log_follow_cons {s : Logged P} {call : Call P} {calls : List (Call P)} {event : Event P}
    {newer : List (Event P)} (hLog : (s.step call).log = event :: s.log)
    (hNewer : ((s.step call).follow calls).log = newer ++ (s.step call).log) :
    (s.follow (call :: calls)).log = (newer ++ [event]) ++ s.log := by
  rw [List.append_assoc, List.singleton_append, ← hLog]
  exact hNewer

/-- Behind its first addition a source is there to be taken over. -/
theorem parsesOf_follow_le_one {path : CanonicalPath} {contents : String} {calls : List (Call P)}
    (hSame : ∀ name c isRoot parse, .add path name c isRoot parse ∈ calls → c = contents)
    (hReset : .reset ∉ calls) (s : Logged P) :
    ∃ newer, (s.follow calls).log = newer ++ s.log ∧ parsesOf path newer ≤ 1 := by
  induction calls generalizing s with
  | nil => exact ⟨[], rfl, Nat.zero_le _⟩
  | cons call calls ih =>
    have hLaterSame : ∀ name c isRoot parse,
        .add path name c isRoot parse ∈ calls → c = contents :=
      fun name c isRoot parse hMem => hSame name c isRoot parse (List.mem_cons_of_mem _ hMem)
    have hLaterReset : .reset ∉ calls := fun hMem => hReset (List.mem_cons_of_mem _ hMem)
    obtain ⟨newer, hNewer, hOnce⟩ := ih hLaterSame hLaterReset (s.step call)
    cases call with
    | subscribe observer =>
      exact ⟨_, log_follow_cons rfl hNewer, by rwa [parsesOf_append]⟩
    | reset => exact absurd List.mem_cons_self hReset
    | add other name c isRoot parse =>
      by_cases hPath : other = path
      · subst hPath
        obtain rfl : c = contents := hSame name c isRoot parse List.mem_cons_self
        have hGet := (get?_add s.cache other name c isRoot parse other).trans (if_pos rfl)
        have hFinds : Finds (s.step (.add other name c isRoot parse)).cache other c
            (s.cache.add other name c isRoot parse).2 calls :=
          .current _ hGet rfl rfl (keepsAdding_of_no_reset hLaterSame hLaterReset)
        obtain ⟨taken, hTaken, hNone, -⟩ := hFinds.follow
        refine ⟨_, log_follow_cons rfl hTaken, ?_⟩
        have hHere : (s.cache.addition other name c isRoot parse).path = other := rfl
        rw [parsesOf_append, hNone, parsesOf, if_pos hHere, parsesOf, Nat.zero_add, Nat.add_zero]
        exact parses_addition_le_one ..
      · refine ⟨_, log_follow_cons rfl hNewer, ?_⟩
        have hElsewhere : ¬ (s.cache.addition other name c isRoot parse).path = path := hPath
        rwa [parsesOf_append, parsesOf, if_neg hElsewhere, parsesOf]

theorem parses_step (s : Logged P) (call : Call P) :
    (s.step call).cache.parses + (newSerials s.log).length =
      s.cache.parses + (newSerials (s.step call).log).length := by
  cases call with
  | subscribe observer => rfl
  | reset => rfl
  | add path name contents isRoot parse =>
    simp only [Logged.step, newSerials, parses_add, parses_addition]
    cases s.cache.reusable? path contents with
    | some source => rfl
    | none =>
      simp only [Option.isSome_none, Bool.false_eq_true, if_false, Nat.one_ne_zero,
        List.length_cons]
      omega

/-- The log accounts for every parse. -/
theorem parses_follow (s : Logged P) (calls : List (Call P)) :
    (s.follow calls).cache.parses + (newSerials s.log).length =
      s.cache.parses + (newSerials (s.follow calls).log).length := by
  induction calls generalizing s with
  | nil => rfl
  | cons call calls ih =>
    have hFirst := parses_step s call
    have hRest : (s.follow (call :: calls)).cache.parses + (newSerials (s.step call).log).length =
        (s.step call).cache.parses + (newSerials (s.follow (call :: calls)).log).length :=
      ih (s.step call)
    omega

end SourceCache

open SourceCache (Logged parsesOf newSerials)

namespace Host

variable {P N : Type}

/-! ## What calls ask of the cache -/

/-- The addition of a file, if it can be read. -/
def fileAddition? (h : Host P N) (w : World) (name : String) (isRoot : Bool) :
    Option (SourceCache.Call P) :=
  (w.contents? (h.layout.canonicalize name)).map fun contents =>
    .add (h.layout.canonicalize name) (h.relativeName (h.layout.canonicalize name)) contents isRoot
      h.parse

/-- The addition that a request for a source leads to, if it is not at hand. -/
def requestAddition? (h : Host P N) (w : World) (name : String) : Option (SourceCache.Call P) :=
  if name = defaultLibraryFile then none
  else if (h.cache.get? (h.layout.canonicalize name)).isSome then none
  else h.fileAddition? w name false

/-- What a call within a generation asks of the cache. -/
def cacheCall? (h : Host P N) : Call P → Option (SourceCache.Call P)
  | .onFile observer => some (.subscribe observer)
  | .addFile w name isRoot => h.fileAddition? w name isRoot
  | .resolveFile w name => h.requestAddition? w name
  | .ask w (.sourceFile name) => h.requestAddition? w name
  | _ => none

/-- What several calls within a generation ask of the cache. -/
def cacheCalls (h : Host P N) : List (Call P) → List (SourceCache.Call P)
  | [] => []
  | call :: calls => (h.cacheCall? call).toList ++ (h.perform call).cacheCalls calls

/-- The cache in the course of a pass, with the log of what it is asked. -/
def passLogged (h : Host P N) (w : World) : Logged P :=
  Logged.follow ⟨h.reset.cache, []⟩ (h.reset.cacheCalls (h.passCalls w))

section Caches

variable {h : Host P N} {s : Logged P} (hs : s.cache = h.cache)

include hs

theorem cache_addFile (w : World) (name : String) (isRoot : Bool) :
    (s.follow (h.fileAddition? w name isRoot).toList).cache =
      (h.addFile w name isRoot).1.cache := by
  unfold fileAddition?
  cases hRead : w.contents? (h.layout.canonicalize name) with
  | none =>
    rw [addFile_of_unreadable hRead]
    exact hs
  | some contents =>
    rw [addFile_of_contents hRead]
    dsimp only [addContents]
    rw [← hs]
    rfl

theorem cache_resolveFile (w : World) (name : String) :
    (s.follow (h.requestAddition? w name).toList).cache = (h.resolveFile w name).1.cache := by
  unfold requestAddition?
  by_cases hName : name = defaultLibraryFile
  · rw [if_pos hName, hName, resolveFile_defaultLibrary]
    exact hs
  · rw [if_neg hName]
    cases hGet : h.cache.get? (h.layout.canonicalize name) with
    | some source =>
      rw [resolveFile_of_get? hName hGet]
      exact hs
    | none =>
      rw [resolveFile_of_get?_none hName hGet]
      exact cache_addFile hs w name false

theorem cache_perform {call : Call P} (hCall : call.Continues) :
    (s.follow (h.cacheCall? call).toList).cache = (h.perform call).cache := by
  cases call with
  | reset => exact hCall.elim
  | runCompile w => exact hCall.elim
  | onFile observer => exact congrArg (·.subscribe observer) hs
  | addFile w name isRoot => exact cache_addFile hs w name isRoot
  | resolveFile w name => exact cache_resolveFile hs w name
  | ask w q =>
    cases q with
    | sourceFile name => exact cache_resolveFile hs w name
    | _ => exact hs
  | _ => exact hs

theorem cache_performAll {calls : List (Call P)} (hCalls : ∀ call ∈ calls, call.Continues) :
    (s.follow (h.cacheCalls calls)).cache = (h.performAll calls).cache := by
  induction calls generalizing h s with
  | nil => exact hs
  | cons call calls ih =>
    rw [cacheCalls, Logged.follow, List.foldl_append]
    exact ih (cache_perform hs (hCalls call List.mem_cons_self))
      fun other hOther => hCalls other (List.mem_cons_of_mem call hOther)

end Caches

theorem cache_passLogged (h : Host P N) (w : World) :
    (h.passLogged w).cache = (h.runCompile w).1.cache := by
  rw [runCompile_fst_eq_performAll]
  exact cache_performAll rfl continues_passCalls

/-! ## One world -/

/-- A call that meets this world, if it meets any. -/
def Call.Meets (w : World) : Call P → Prop
  | .addFile w' _ _ => w' = w
  | .resolveFile w' _ => w' = w
  | .ask w' _ => w' = w
  | .runCompile w' => w' = w
  | _ => True

theorem meets_passCalls {h : Host P N} {w : World} : ∀ call ∈ h.passCalls w, call.Meets w := by
  intro call hCall
  rcases mem_passCalls_cases hCall with ⟨name, -, rfl⟩ | ⟨q, rfl⟩
  · rfl
  · rfl

/-- An addition of what the world holds for its path. -/
def AddsFrom (w : World) : SourceCache.Call P → Prop
  | .subscribe _ => True
  | .reset => False
  | .add path _ contents _ _ => w.contents? path = some contents

theorem addsFrom_of_fileAddition? {h : Host P N} {w : World} {name : String} {isRoot : Bool}
    {c : SourceCache.Call P} (hc : h.fileAddition? w name isRoot = some c) : AddsFrom w c := by
  obtain ⟨contents, hRead, rfl⟩ := Option.map_eq_some_iff.1 hc
  exact hRead

theorem addsFrom_of_requestAddition? {h : Host P N} {w : World} {name : String}
    {c : SourceCache.Call P} (hc : h.requestAddition? w name = some c) : AddsFrom w c := by
  unfold requestAddition? at hc
  split at hc
  · cases hc
  · split at hc
    · cases hc
    · exact addsFrom_of_fileAddition? hc

theorem addsFrom_of_cacheCall? {h : Host P N} {w : World} {call : Call P} (hCall : call.Meets w)
    {c : SourceCache.Call P} (hc : h.cacheCall? call = some c) : AddsFrom w c := by
  cases call with
  | onFile observer =>
    cases hc
    trivial
  | addFile w' name isRoot =>
    cases hCall
    exact addsFrom_of_fileAddition? hc
  | resolveFile w' name =>
    cases hCall
    exact addsFrom_of_requestAddition? hc
  | ask w' q =>
    cases hCall
    cases q with
    | sourceFile name => exact addsFrom_of_requestAddition? hc
    | _ => cases hc
  | _ => cases hc

theorem addsFrom_of_mem_cacheCalls {w : World} {calls : List (Call P)}
    (hCalls : ∀ call ∈ calls, call.Meets w) {h : Host P N} :
    ∀ c ∈ h.cacheCalls calls, AddsFrom w c := by
  induction calls generalizing h with
  | nil => exact fun c hc => by cases hc
  | cons call calls ih =>
    intro c hc
    rcases List.mem_append.1 hc with hHere | hLater
    · exact addsFrom_of_cacheCall? (hCalls call List.mem_cons_self) (Option.mem_toList.1 hHere)
    · exact ih (fun other hOther => hCalls other (List.mem_cons_of_mem call hOther)) c hLater

/-- No file is parsed twice in a pass. -/
theorem parsesOf_passLogged_le_one (h : Host P N) (w : World) (path : CanonicalPath) :
    parsesOf path (h.passLogged w).log ≤ 1 := by
  have hAll : ∀ c ∈ h.reset.cacheCalls (h.passCalls w), AddsFrom w c :=
    addsFrom_of_mem_cacheCalls meets_passCalls
  have hSame : ∀ name c isRoot parse,
      .add path name c isRoot parse ∈ h.reset.cacheCalls (h.passCalls w) →
        c = (w.contents? path).getD "" := by
    intro name c isRoot parse hMem
    have hRead : w.contents? path = some c := hAll _ hMem
    rw [hRead, Option.getD_some]
  obtain ⟨newer, hLog, hOnce⟩ := SourceCache.parsesOf_follow_le_one hSame
    (fun hReset => hAll _ hReset) ⟨h.reset.cache, []⟩
  rw [passLogged, hLog, List.append_nil]
  exact hOnce

/-! ## Requests -/

/-- What is handed out is on record. -/
theorem get?_of_resolveFile {h : Host P N} {w : World} {name : String} {parsed : Parsed P}
    (hName : name ≠ defaultLibraryFile) (hReply : (h.resolveFile w name).2 = some parsed) :
    ∃ source, (h.resolveFile w name).1.cache.get? (h.layout.canonicalize name) = some source ∧
      source.parsed = parsed := by
  rcases h.resolveFile_cases w name with ⟨hLibrary, -⟩ | ⟨-, ⟨source, hGet, hEq⟩ | ⟨-, hEq⟩⟩
  · exact absurd hLibrary hName
  · rw [hEq] at hReply ⊢
    exact ⟨source, hGet, Option.some.inj hReply⟩
  · rw [hEq] at hReply ⊢
    cases hRead : w.contents? (h.layout.canonicalize name) with
    | none =>
      rw [addFile_of_unreadable hRead] at hReply
      cases hReply
    | some contents =>
      rw [addFile_of_contents hRead] at hReply ⊢
      exact ⟨_, (SourceCache.get?_add ..).trans (if_pos rfl), Option.some.inj hReply⟩

theorem addFile_fst_of_none {h : Host P N} {w : World} {name : String} {isRoot : Bool}
    (hNone : (h.addFile w name isRoot).2 = none) : (h.addFile w name isRoot).1 = h := by
  cases hRead : w.contents? (h.layout.canonicalize name) with
  | none => rw [addFile_of_unreadable hRead]
  | some contents =>
    rw [addFile_of_contents hRead] at hNone
    cases hNone

theorem resolveFile_fst_of_none {h : Host P N} {w : World} {name : String}
    (hNone : (h.resolveFile w name).2 = none) : (h.resolveFile w name).1 = h := by
  rcases h.resolveFile_cases w name with ⟨-, hEq⟩ | ⟨-, ⟨source, -, hEq⟩ | ⟨-, hEq⟩⟩
  · rw [hEq]
  · rw [hEq]
  · rw [hEq] at hNone ⊢
    exact addFile_fst_of_none hNone

/-- **One snapshot in a generation.**  Once a file has been handed out under a name that is not that
of the default library, every later request for it, by any such name of the same path, is answered
with the same handle and changes nothing, whatever was asked, emitted and reported in between and
whatever has become of the file tree, as long as no generation starts and the file is not added
anew.  A request or an addition in vain leaves the host as it was.  And in a pass, which meets one
file tree, no path is parsed more than once; the log that tells so has every parse of the pass. -/
theorem generation_is_snapshot (h : Host P N) :
    (∀ w name parsed calls, name ≠ defaultLibraryFile →
      (h.resolveFile w name).2 = some parsed →
      (∀ call ∈ calls, call.Retains h.layout (h.layout.canonicalize name)) →
      ∀ w' name', name' ≠ defaultLibraryFile →
        h.layout.canonicalize name' = h.layout.canonicalize name →
        let later := (h.resolveFile w name).1.performAll calls
        later.resolveFile w' name' = (later, some parsed)) ∧
    (∀ w name, (h.resolveFile w name).2 = none → (h.resolveFile w name).1 = h) ∧
    (∀ w name isRoot, (h.addFile w name isRoot).2 = none → (h.addFile w name isRoot).1 = h) ∧
    ∀ w,
      (h.passLogged w).cache = (h.runCompile w).1.cache ∧
      (h.runCompile w).1.cache.parses =
        h.cache.parses + (newSerials (h.passLogged w).log).length ∧
      ∀ path, parsesOf path (h.passLogged w).log ≤ 1 := by
  refine ⟨?_, fun w name => resolveFile_fst_of_none, fun w name isRoot => addFile_fst_of_none,
    fun w => ⟨h.cache_passLogged w, ?_, h.parsesOf_passLogged_le_one w⟩⟩
  · intro w name parsed calls hName hReply hCalls w' name' hName' hPath later
    have hLayout : (h.resolveFile w name).1.layout = h.layout :=
      congrArg Prod.fst (outlet_of_bare (bare_resolveFile h w name))
    obtain ⟨source, hGet, rfl⟩ := get?_of_resolveFile hName hReply
    have hLater : later.cache.get? (later.layout.canonicalize name') = some source := by
      rw [layout_performAll, hLayout, hPath]
      exact get?_performAll_of_retains hLayout hCalls hGet
    exact resolveFile_of_get? hName' hLater
  · rw [← cache_passLogged]
    exact SourceCache.parses_follow ⟨h.reset.cache, []⟩ _

end Host

/-- A world of some sources in `/work/src`. -/
def World.ofSources (sources : List (String × List UInt8)) : World :=
  let files := sources.map fun (name, bytes) => (["work", "src", name], Node.file bytes)
  ⟨⟨(["work"], .directory) :: (["work", "src"], .directory) :: files, []⟩, ⟨[]⟩⟩

/-- The file has new contents when it is asked for again, by another spelling of its path. -/
theorem Host.generation_is_snapshot_changed_file :
    let before := World.ofSources [("a.ts", [97])]
    let after := World.ofSources [("a.ts", [98])]
    let calls : List (Host.Call String) := [.ask after (.sourceFile "src/b.ts"),
      .ask after (.emitText "dist/a.js" "text"), .ask after (.report ⟨.error, none, none, "bad"⟩)]
    "src/a.ts" ≠ defaultLibraryFile ∧ "./lib/../src/a.ts" ≠ defaultLibraryFile ∧
    (Host.echo.resolveFile before "src/a.ts").2 = some ⟨1, "a"⟩ ∧
    (∀ call ∈ calls, call.Retains Host.echo.layout (Host.echo.layout.canonicalize "src/a.ts")) ∧
    Host.echo.layout.canonicalize "./lib/../src/a.ts" =
      Host.echo.layout.canonicalize "src/a.ts" ∧
    (((Host.echo.resolveFile before "src/a.ts").1.performAll calls).resolveFile after
      "./lib/../src/a.ts").2 = some ⟨1, "a"⟩ := by
  intro before after calls
  have hName : "src/a.ts" ≠ defaultLibraryFile := by decide
  have hName' : "./lib/../src/a.ts" ≠ defaultLibraryFile := by decide
  have hReply : (Host.echo.resolveFile before "src/a.ts").2 = some ⟨1, "a"⟩ := by decide +kernel
  have hCalls : ∀ call ∈ calls,
      call.Retains Host.echo.layout (Host.echo.layout.canonicalize "src/a.ts") := by
    simp [calls, Host.Call.Retains]
  have hPath : Host.echo.layout.canonicalize "./lib/../src/a.ts" =
      Host.echo.layout.canonicalize "src/a.ts" := by decide +kernel
  refine ⟨hName, hName', hReply, hCalls, hPath, ?_⟩
  obtain ⟨hStays, -⟩ := Host.generation_is_snapshot Host.echo
  have hLater := hStays before _ _ calls hName hReply hCalls after _ hName' hPath
  exact congrArg Prod.snd hLater

end CompileHost
