import CompileHost.Proofs.Cache.History
import CompileHost.Proofs.Cache.Paths

/-!
# What observers are told, and what a cache lists

Every addition makes one round of notices, whether its source is parsed or taken over, and no other
call makes any.  A round goes through the observers in the order of their subscription.  An observer
subscribed later comes behind those that are there, so each keeps its place in all rounds to come.

The lists of a cache speak of the additions since the last reset: each of their sources is listed
once, and sorted by what its last addition says.

* `notices_step`: the notices of one call.
* `heard_of_subscribed`, `heard_of_not_yet`: what comes to a place that is taken, or still free.
* `run_notices_and_paths`: the notices of a run, and its lists.
-/

namespace CompileHost.SourceCache

variable {P : Type}

/-- The observer that a call subscribes. -/
def Call.observer? : Call P → Option String
  | .subscribe observer => some observer
  | _ => none

/-- What there is to be told of a call: the path and the name of the source that it adds. -/
def Call.news? : Call P → Option (CanonicalPath × String)
  | .add path name _ _ _ => some (path, name)
  | _ => none

/-- The notices that come with a call. -/
def Logged.told (s : Logged P) (call : Call P) : List Notice :=
  (s.step call).cache.notices.drop s.cache.notices.length

/-- The notices of each addition in turn. -/
def Logged.rounds (s : Logged P) : List (Call P) → List (List Notice)
  | [] => []
  | call :: calls =>
    match call.news? with
    | some _ => s.told call :: (s.step call).rounds calls
    | none => (s.step call).rounds calls

/-- What the observer in a place hears in the course of some rounds. -/
def heard (place : Nat) (rounds : List (List Notice)) : List Notice :=
  rounds.filterMap (·[place]?)

theorem heard_cons_of_some {place : Nat} {round : List Notice} {notice : Notice}
    (h : round[place]? = some notice) (rounds : List (List Notice)) :
    heard place (round :: rounds) = notice :: heard place rounds :=
  List.filterMap_cons_some h

theorem heard_cons_of_none {place : Nat} {round : List Notice} (h : round[place]? = none)
    (rounds : List (List Notice)) : heard place (round :: rounds) = heard place rounds :=
  List.filterMap_cons_none h

/-! ## One call -/

theorem notices_add (cache : SourceCache P) (path : CanonicalPath) (name contents : String)
    (isRoot : Bool) (parse : String → String → P) :
    (cache.add path name contents isRoot parse).1.notices =
      cache.notices ++ cache.observers.map (⟨·, path, name⟩) := by
  cases h : cache.reusable? path contents <;> simp [add, obtain, record, h]

theorem observers_add (cache : SourceCache P) (path : CanonicalPath) (name contents : String)
    (isRoot : Bool) (parse : String → String → P) :
    (cache.add path name contents isRoot parse).1.observers = cache.observers := by
  cases h : cache.reusable? path contents <;> simp [add, obtain, record, h]

theorem observers_step (s : Logged P) (call : Call P) :
    (s.step call).cache.observers = s.cache.observers ++ call.observer?.toList := by
  cases call with
  | subscribe observer => rfl
  | reset => exact (List.append_nil _).symm
  | add path name contents isRoot parse =>
    exact (observers_add ..).trans (List.append_nil _).symm

theorem observers_step_append (s : Logged P) (call : Call P) (calls : List (Call P)) :
    (s.step call).cache.observers ++ calls.filterMap Call.observer? =
      s.cache.observers ++ (call :: calls).filterMap Call.observer? := by
  rw [observers_step, List.append_assoc]
  cases hCall : call.observer? <;> simp [hCall]

theorem notices_step (s : Logged P) (call : Call P) :
    (s.step call).cache.notices =
      s.cache.notices ++ match call.news? with
        | some (path, name) => s.cache.observers.map (⟨·, path, name⟩)
        | none => [] := by
  cases call with
  | add path name contents isRoot parse => exact notices_add ..
  | _ => exact (List.append_nil _).symm

theorem told_of_news {s : Logged P} {call : Call P} {path : CanonicalPath} {name : String}
    (hNews : call.news? = some (path, name)) :
    s.told call = s.cache.observers.map (⟨·, path, name⟩) := by
  rw [Logged.told, notices_step, hNews, List.drop_left]

/-! ## Rounds -/

theorem rounds_cons_of_news {s : Logged P} {call : Call P} {path : CanonicalPath} {name : String}
    (hNews : call.news? = some (path, name)) (calls : List (Call P)) :
    s.rounds (call :: calls) =
      s.cache.observers.map (⟨·, path, name⟩) :: (s.step call).rounds calls := by
  rw [Logged.rounds, hNews, told_of_news hNews]

theorem rounds_cons_of_silent {s : Logged P} {call : Call P} (hSilent : call.news? = none)
    (calls : List (Call P)) : s.rounds (call :: calls) = (s.step call).rounds calls := by
  rw [Logged.rounds, hSilent]

/-- Nothing is told but in rounds. -/
theorem notices_follow (s : Logged P) (calls : List (Call P)) :
    (s.follow calls).cache.notices = s.cache.notices ++ (s.rounds calls).flatten := by
  induction calls generalizing s with
  | nil => exact (List.append_nil _).symm
  | cons call calls ih =>
    have hRest := ih (s.step call)
    rw [notices_step] at hRest
    refine hRest.trans ?_
    cases hNews : call.news? with
    | none => rw [rounds_cons_of_silent hNews, List.append_nil]
    | some news => rw [rounds_cons_of_news hNews, List.flatten_cons, List.append_assoc]

theorem length_rounds (s : Logged P) (calls : List (Call P)) :
    (s.rounds calls).length = (calls.filterMap Call.news?).length := by
  induction calls generalizing s with
  | nil => rfl
  | cons call calls ih =>
    cases hNews : call.news? with
    | none => rw [rounds_cons_of_silent hNews, ih, List.filterMap_cons_none hNews]
    | some news =>
      rw [rounds_cons_of_news hNews, List.length_cons, ih, List.filterMap_cons_some hNews,
        List.length_cons]

/-- The round of an addition goes through the observers in order. -/
theorem getElem?_rounds (s : Logged P) {before : List (Call P)} {call : Call P}
    {path : CanonicalPath} {name : String} (hNews : call.news? = some (path, name))
    (after : List (Call P)) :
    (s.rounds (before ++ call :: after))[(before.filterMap Call.news?).length]? =
      some ((s.cache.observers ++ before.filterMap Call.observer?).map (⟨·, path, name⟩)) := by
  induction before generalizing s with
  | nil =>
    rw [List.nil_append, rounds_cons_of_news hNews, List.filterMap_nil, List.filterMap_nil,
      List.append_nil]
    rfl
  | cons first before ih =>
    have hRest := ih (s.step first)
    rw [observers_step_append] at hRest
    cases hFirst : first.news? with
    | none => rwa [List.cons_append, rounds_cons_of_silent hFirst, List.filterMap_cons_none hFirst]
    | some news =>
      rwa [List.cons_append, rounds_cons_of_news hFirst, List.filterMap_cons_some hFirst,
        List.length_cons, List.getElem?_cons_succ]

/-! ## Places -/

/-- A place that is taken is told of every addition. -/
theorem heard_of_subscribed {s : Logged P} {place : Nat} {observer : String}
    (hPlace : s.cache.observers[place]? = some observer) (calls : List (Call P)) :
    heard place (s.rounds calls) =
      (calls.filterMap Call.news?).map fun news => ⟨observer, news.1, news.2⟩ := by
  induction calls generalizing s with
  | nil => rfl
  | cons call calls ih =>
    have hNext : (s.step call).cache.observers[place]? = some observer := by
      have hTaken := (List.getElem?_eq_some_iff.1 hPlace).1
      rw [observers_step, List.getElem?_append_left hTaken, hPlace]
    cases hNews : call.news? with
    | none => rw [rounds_cons_of_silent hNews, ih hNext, List.filterMap_cons_none hNews]
    | some news =>
      have hHere : (s.cache.observers.map fun o => (⟨o, news.1, news.2⟩ : Notice))[place]? =
          some ⟨observer, news.1, news.2⟩ := by
        rw [List.getElem?_map, hPlace, Option.map_some]
      rw [rounds_cons_of_news hNews, heard_cons_of_some hHere, ih hNext,
        List.filterMap_cons_some hNews, List.map_cons]

/-- A place that is still free is told of nothing until it is taken. -/
theorem heard_of_not_yet (s : Logged P) (before after : List (Call P)) (observer : String) :
    heard (s.cache.observers ++ before.filterMap Call.observer?).length
        (s.rounds (before ++ .subscribe observer :: after)) =
      (after.filterMap Call.news?).map fun news => ⟨observer, news.1, news.2⟩ := by
  induction before generalizing s with
  | nil =>
    rw [List.nil_append, rounds_cons_of_silent rfl, List.filterMap_nil, List.append_nil]
    refine heard_of_subscribed ?_ after
    rw [observers_step]
    exact List.getElem?_concat_length
  | cons first before ih =>
    have hRest := ih (s.step first)
    rw [observers_step_append] at hRest
    cases hFirst : first.news? with
    | none => rwa [List.cons_append, rounds_cons_of_silent hFirst]
    | some news =>
      have hFree : (s.cache.observers.map fun o => (⟨o, news.1, news.2⟩ : Notice))[
          (s.cache.observers ++ (first :: before).filterMap Call.observer?).length]? = none := by
        rw [List.getElem?_eq_none_iff, List.length_map, List.length_append]
        omega
      rwa [List.cons_append, rounds_cons_of_news hFirst, heard_cons_of_none hFree]

/-! ## Whole runs -/

/-- The rounds of a run. -/
def runRounds (calls : List (Call P)) : List (List Notice) :=
  Logged.rounds ⟨.empty, []⟩ calls

theorem path_of_lastAddition? {path : CanonicalPath} {a : Addition P} {log : List (Event P)}
    (h : lastAddition? path log = some a) : a.path = path := by
  induction log with
  | nil => cases h
  | cons event earlier ih =>
    cases event with
    | subscribed observer => exact ih h
    | reset => cases h
    | added b =>
      rw [lastAddition?] at h
      split at h
      · rename_i hPath
        cases h
        exact hPath
      · exact ih h

/-- A record is that of the last addition of its path. -/
theorem Follows.exists_lastAddition {log : List (Event P)} {cache : SourceCache P}
    (h : Follows log cache) {path : CanonicalPath} {source : SourceRecord P}
    (hGet : cache.get? path = some source) :
    ∃ a, lastAddition? path log = some a ∧ a.Leaves source := by
  have hLast := h.current path
  rw [hGet] at hLast
  cases hAddition : lastAddition? path log with
  | none =>
    rw [hAddition] at hLast
    cases hLast
  | some a =>
    rw [hAddition] at hLast
    cases hLast with
    | some hLeaves => exact ⟨a, rfl, hLeaves⟩

section Lists

variable {log : List (Event P)} {cache : SourceCache P} (h : Follows log cache)

include h

theorem Follows.mem_observedPaths_iff {path : CanonicalPath} :
    path ∈ cache.observedPaths ↔ (lastAddition? path log).isSome = true := by
  have hLast := h.current path
  rw [mem_observedPaths]
  generalize lastAddition? path log = last, cache.get? path = recorded at hLast ⊢
  cases hLast <;> simp

/-- The flag of a record is the one that the last addition of its path was given. -/
theorem Follows.rootPaths_eq :
    cache.rootPaths =
      cache.observedPaths.filter fun path => (lastAddition? path log).any (·.isRoot) := by
  refine pathsWhere_eq_filter fun path source hGet => ?_
  obtain ⟨a, hLast, hLeaves⟩ := h.exists_lastAddition hGet
  rw [hLast, Option.any_some, hLeaves.isRoot]

theorem Follows.dependencyPaths_eq :
    cache.dependencyPaths =
      cache.observedPaths.filter fun path => Path.isDependencyModule path.text := by
  refine pathsWhere_eq_filter fun path source hGet => ?_
  obtain ⟨a, hLast, hLeaves⟩ := h.exists_lastAddition hGet
  rw [hLeaves.isDependency, path_of_lastAddition? hLast]

end Lists

/-- **Notices and lists are exact.**  In the course of a run the observers are told of every
addition, in a round that goes through those subscribed before it, in order, and of nothing else;
so each of them hears of all additions behind its own subscription, once each and in order.  At the
end of the run the cache lists the paths added since the last reset, in ascending order and each
once; the roots are those the last addition of which was that of a root, and the modules of
dependencies those that lie in a dependency. -/
theorem run_notices_and_paths (calls : List (Call P)) :
    let cache := (Logged.run calls).cache
    let log := (Logged.run calls).log
    cache.notices = (runRounds calls).flatten ∧
    (runRounds calls).length = (calls.filterMap Call.news?).length ∧
    (∀ before path name contents isRoot parse after,
      calls = before ++ .add path name contents isRoot parse :: after →
      (runRounds calls)[(before.filterMap Call.news?).length]? =
        some ((before.filterMap Call.observer?).map (⟨·, path, name⟩))) ∧
    (∀ before observer after, calls = before ++ .subscribe observer :: after →
      heard (before.filterMap Call.observer?).length (runRounds calls) =
        (after.filterMap Call.news?).map fun news => ⟨observer, news.1, news.2⟩) ∧
    (cache.observedPaths.Pairwise fun a b => compare a b = .lt) ∧
    (∀ path, path ∈ cache.observedPaths ↔ (lastAddition? path log).isSome = true) ∧
    cache.rootPaths =
      (cache.observedPaths.filter fun path => (lastAddition? path log).any (·.isRoot)) ∧
    cache.dependencyPaths =
      cache.observedPaths.filter fun path => Path.isDependencyModule path.text := by
  intro cache log
  have hFollows : Follows log cache := Follows.follow follows_empty calls
  refine ⟨?_, length_rounds _ calls, ?_, ?_, pairwise_pathsWhere _ _,
    fun path => hFollows.mem_observedPaths_iff, hFollows.rootPaths_eq,
    hFollows.dependencyPaths_eq⟩
  · exact (notices_follow ⟨.empty, []⟩ calls).trans (List.nil_append _)
  · rintro before path name contents isRoot parse after rfl
    exact getElem?_rounds ⟨.empty, []⟩ rfl after
  · rintro before observer after rfl
    exact heard_of_not_yet ⟨.empty, []⟩ before after observer

/-- Two observers of one name: the later one does not hear of the parse, but of the source being
taken over, and in the round behind the other. -/
theorem run_notices_and_paths_namesakes :
    let first : Call String := .add ⟨"/a"⟩ "a" "text" true fun _ contents => contents
    let second : Call String := .add ⟨"/a"⟩ "a" "text" false fun _ contents => contents
    let calls := [.subscribe "log", .reset, first, .subscribe "log", .reset, second]
    calls = [.subscribe "log", .reset, first] ++ .subscribe "log" :: [.reset, second] ∧
    calls = [.subscribe "log", .reset, first, .subscribe "log", .reset] ++ second :: [] ∧
    (runRounds calls)[1]? = some [⟨"log", ⟨"/a"⟩, "a"⟩, ⟨"log", ⟨"/a"⟩, "a"⟩] ∧
    heard 1 (runRounds calls) = [⟨"log", ⟨"/a"⟩, "a"⟩] := by
  intro first second calls
  obtain ⟨-, -, hRound, hHeard, -⟩ := run_notices_and_paths calls
  refine ⟨rfl, rfl, ?_, ?_⟩
  · exact hRound [.subscribe "log", .reset, first, .subscribe "log", .reset] _ _ _ _ _ [] rfl
  · exact hHeard [.subscribe "log", .reset, first] "log" [.reset, second] rfl

end CompileHost.SourceCache
