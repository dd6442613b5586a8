import CompileHost.OutputStore
import Mathlib.Data.List.Induction

/-!
# The history of a store

A store is determined by the calls made to it.  Every write meets the file tree as it is at that
time, so the tree may change in any way from call to call; what a write keeps its text under is
settled when it is made.  All writes are such that the walk along their source ends.

* `writtenPaths`: the paths that a write keeps its text under.
* `LastText`, `Reached`: the text of the last write to reach a path since the last clear, and
  whether there is one.
* `run_refines_last_write`: the texts and the paths of a store, after every sequence of calls.
-/

namespace CompileHost.OutputStore

/-! ## One write -/

/-- The paths that a write keeps its text under: the canonical form of its path, and, if the source
of that is reached through a link, the output path of the real source.  A write whose walk along
the source does not end keeps nothing, and is left out here and below. -/
def writtenPaths (l : Layout) (t : FileTree) (path : String) : List CanonicalPath :=
  let output := l.canonicalize path
  let source := l.toSource output.text
  let real := l.canonicalizer.resolveLinks t source.text
  if real = source then [output] else [output, l.toOutput real.text]

theorem mem_writtenPaths_iff {l : Layout} {t : FileTree} {path : String} {q : CanonicalPath} :
    q ∈ writtenPaths l t path ↔
      l.canonicalize path = q ∨ alias? l t (l.canonicalize path) = some q := by
  simp only [writtenPaths, alias?]
  split
  · simp [eq_comm]
  · simp [eq_comm]

theorem canonicalize_mem_writtenPaths (l : Layout) (t : FileTree) (path : String) :
    l.canonicalize path ∈ writtenPaths l t path :=
  mem_writtenPaths_iff.2 (Or.inl rfl)

/-- A write changes what is read at the paths that it keeps its text under, and nothing else. -/
theorem get?_write_of_mem {l : Layout} {t : FileTree} {path : String} {q : CanonicalPath}
    (hMem : q ∈ writtenPaths l t path) (store : OutputStore) (text : String) :
    (store.write l t path text).1.get? q = some text := by
  rw [get?_write, if_pos (mem_writtenPaths_iff.1 hMem)]

theorem get?_write_of_not_mem {l : Layout} {t : FileTree} {path : String} {q : CanonicalPath}
    (hMem : q ∉ writtenPaths l t path) (store : OutputStore) (text : String) :
    (store.write l t path text).1.get? q = store.get? q := by
  rw [get?_write, if_neg (mt mem_writtenPaths_iff.2 hMem)]

/-! ## Calls -/

/-- A call to a store, where a write comes with the file tree that it meets. -/
inductive Call where
  | write (t : FileTree) (path text : String)
  | clear

/-- The store behind a call. -/
def perform (l : Layout) (store : OutputStore) : Call → OutputStore
  | .write t path text => (store.write l t path text).1
  | .clear => .empty

/-- The store behind several calls, in order. -/
def performAll (l : Layout) (store : OutputStore) (calls : List Call) : OutputStore :=
  calls.foldl (perform l) store

/-- A call that leaves alone what is kept under a path. -/
def Call.Spares (l : Layout) (q : CanonicalPath) : Call → Prop
  | .write t path _ => q ∉ writtenPaths l t path
  | .clear => False

/-- The last write to reach a path since the last clear was of this text. -/
def LastText (l : Layout) (calls : List Call) (q : CanonicalPath) (text : String) : Prop :=
  ∃ earlier t path later, calls = earlier ++ .write t path text :: later ∧
    q ∈ writtenPaths l t path ∧ ∀ call ∈ later, call.Spares l q

/-- A write that no clear has followed. -/
def Stands (calls : List Call) (t : FileTree) (path text : String) : Prop :=
  ∃ earlier later, calls = earlier ++ .write t path text :: later ∧ .clear ∉ later

/-- A write since the last clear reaches a path. -/
def Reached (l : Layout) (calls : List Call) (q : CanonicalPath) : Prop :=
  ∃ t path text, Stands calls t path text ∧ q ∈ writtenPaths l t path

section Calls

variable {l : Layout} {calls later : List Call} {q : CanonicalPath} {text : String}

theorem performAll_append (store : OutputStore) (calls later : List Call) :
    performAll l store (calls ++ later) = performAll l (performAll l store calls) later :=
  List.foldl_append

theorem performAll_write (store : OutputStore) (calls : List Call) (t : FileTree)
    (path text : String) :
    performAll l store (calls ++ [.write t path text]) =
      ((performAll l store calls).write l t path text).1 :=
  performAll_append store calls _

theorem not_stands_nil {t : FileTree} {path text : String} : ¬ Stands [] t path text := by
  rintro ⟨earlier, later, hCalls, -⟩
  cases earlier <;> cases hCalls

/-- What stands behind one more call is that call, or stood before it, and was not cleared. -/
theorem stands_concat_iff {call : Call} {t : FileTree} {path text : String} :
    Stands (calls ++ [call]) t path text ↔
      call = .write t path text ∨ Stands calls t path text ∧ call ≠ .clear := by
  constructor
  · rintro ⟨earlier, later, hCalls, hClear⟩
    rcases List.eq_nil_or_concat later with rfl | ⟨before, last, rfl⟩
    · exact Or.inl (List.append_inj_right' hCalls rfl |> List.singleton_inj.1)
    · rw [List.concat_eq_append, ← List.cons_append, ← List.append_assoc] at hCalls
      obtain ⟨hBefore, hLast⟩ := List.append_inj' hCalls rfl
      rw [List.concat_eq_append, List.mem_append, not_or, List.mem_singleton] at hClear
      rw [List.singleton_inj.1 hLast]
      exact Or.inr ⟨⟨earlier, before, hBefore, hClear.1⟩, Ne.symm hClear.2⟩
  · rintro (rfl | ⟨⟨earlier, later, rfl, hClear⟩, hCall⟩)
    · exact ⟨calls, [], rfl, List.not_mem_nil⟩
    · refine ⟨earlier, later ++ [call], by simp, ?_⟩
      rw [List.mem_append, List.mem_singleton]
      exact not_or.2 ⟨hClear, Ne.symm hCall⟩

theorem get?_perform_of_spares {call : Call} (hSpares : call.Spares l q) (store : OutputStore) :
    (perform l store call).get? q = store.get? q := by
  cases call with
  | write t path text => exact get?_write_of_not_mem hSpares store text
  | clear => exact hSpares.elim

/-- What every call spares is there at the end. -/
theorem get?_performAll_of_spares (hSpares : ∀ call ∈ calls, call.Spares l q)
    (store : OutputStore) : (performAll l store calls).get? q = store.get? q := by
  induction calls generalizing store with
  | nil => rfl
  | cons call calls ih =>
    have hRest := ih (fun other hOther => hSpares other (List.mem_cons_of_mem _ hOther))
      (perform l store call)
    exact hRest.trans (get?_perform_of_spares (hSpares call List.mem_cons_self) store)

/-- Without a clear, what is kept under a path is replaced at most. -/
theorem isSome_performAll (hClear : .clear ∉ calls) {store : OutputStore}
    (hSome : (store.get? q).isSome) : ((performAll l store calls).get? q).isSome := by
  induction calls generalizing store with
  | nil => exact hSome
  | cons call calls ih =>
    rw [List.mem_cons, not_or] at hClear
    refine ih hClear.2 ?_
    cases call with
    | clear => exact absurd rfl hClear.1
    | write t path text =>
      by_cases hMem : q ∈ writtenPaths l t path
      · rw [perform, get?_write_of_mem hMem]
        rfl
      · rwa [perform, get?_write_of_not_mem hMem]

theorem LastText.append (h : LastText l calls q text) {call : Call}
    (hSpares : call.Spares l q) : LastText l (calls ++ [call]) q text := by
  obtain ⟨earlier, t, path, later, rfl, hMem, hLater⟩ := h
  refine ⟨earlier, t, path, later ++ [call], by simp, hMem, ?_⟩
  intro other hOther
  rcases List.mem_append.1 hOther with hOld | hNew
  · exact hLater other hOld
  · rwa [List.mem_singleton.1 hNew]

theorem LastText.reached (h : LastText l calls q text) : Reached l calls q := by
  obtain ⟨earlier, t, path, later, rfl, hMem, hLater⟩ := h
  exact ⟨t, path, text, ⟨earlier, later, rfl, fun hClear => hLater .clear hClear⟩, hMem⟩

/-- The text that is read at a path is that of the last write to reach it. -/
theorem get?_performAll_iff :
    (performAll l .empty calls).get? q = some text ↔ LastText l calls q text := by
  constructor
  · intro hText
    -- the last call either spares the path, or is a write that reaches it
    induction calls using List.reverseRecOn with
    | nil => simp [performAll] at hText
    | append_singleton calls call ih =>
      rw [performAll_append] at hText
      change (perform l (performAll l .empty calls) call).get? q = some text at hText
      by_cases hSpares : call.Spares l q
      · rw [get?_perform_of_spares hSpares] at hText
        exact (ih hText).append hSpares
      · cases call with
        | clear => simp [perform] at hText
        | write t path written =>
          have hMem : q ∈ writtenPaths l t path := not_not.1 hSpares
          rw [perform, get?_write_of_mem hMem] at hText
          cases hText
          exact ⟨calls, t, path, [], rfl, hMem, by simp⟩
  · rintro ⟨earlier, t, path, later, rfl, hMem, hLater⟩
    rw [performAll_append]
    exact (get?_performAll_of_spares hLater _).trans (get?_write_of_mem hMem _ _)

theorem isSome_performAll_iff :
    ((performAll l .empty calls).get? q).isSome ↔ Reached l calls q := by
  constructor
  · intro hSome
    obtain ⟨text, hText⟩ := Option.isSome_iff_exists.1 hSome
    exact (get?_performAll_iff.1 hText).reached
  · rintro ⟨t, path, text, ⟨earlier, later, rfl, hClear⟩, hMem⟩
    rw [performAll_append]
    change ((performAll l _ later).get? q).isSome = true
    refine isSome_performAll hClear ?_
    rw [perform, get?_write_of_mem hMem]
    rfl

end Calls

/-! ## The paths of a store -/

theorem mem_paths {store : OutputStore} {q : CanonicalPath} :
    q ∈ store.paths ↔ (store.get? q).isSome := by
  rw [paths, Std.TreeMap.mem_keys, Std.TreeMap.mem_iff_isSome_getElem?]
  rfl

/-- **A store refines the last writer.**  After every sequence of clears and of writes whose walks
along links end, over a tree that may change between them, the text read at a path is that of the
last write since the last clear that was made to it, or of which it was the other path when it was
made; nothing is read where there is no such write.  The paths of the store are those that are
reached in this way, in ascending order and each once, and its size is their number. -/
theorem run_refines_last_write (l : Layout) (calls : List Call) :
    let store := performAll l .empty calls
    (∀ path text, store.read? l path = some text ↔
      LastText l calls (l.canonicalize path) text) ∧
    (∀ path, store.read? l path = none ↔ ¬ Reached l calls (l.canonicalize path)) ∧
    (∀ q, q ∈ store.paths ↔ Reached l calls q) ∧
    store.paths.Pairwise (fun a b => compare a b = .lt) ∧ store.paths.Nodup ∧
    store.size = store.paths.length := by
  intro store
  refine ⟨fun path text => get?_performAll_iff, ?_, ?_, ?_, ?_, ?_⟩
  · intro path
    rw [← isSome_performAll_iff, Option.not_isSome_iff_eq_none]
    rfl
  · intro q
    rw [mem_paths, isSome_performAll_iff]
  · exact Std.TreeMap.ordered_keys
  · exact Std.TreeMap.nodup_keys
  · exact Std.TreeMap.length_keys.symm

end CompileHost.OutputStore
