import CompileHost.Proofs.Path.Layout
import CompileHost.Proofs.Store.History

/-!
# The two names of an emitted file

A file whose source is reached through a link has two names in the output tree, its own and that of
the real source.  A write through its own name reaches both.  A write through the real name does
not look for links that lead there, and the real name of a file may belong to another source, if
links lead out of the source tree.  The writes, and the real sources, are those of walks that end.

* `mem_writtenPaths_of_below`: the two names, for a file of the output tree.
* `coherent_iff`: when both names read the same all the time.
* `write_spares_others_iff`: when a write leaves the files of other sources alone.
-/

namespace CompileHost

namespace Layout

/-- The real path of the source of an emitted file, if the walk along the source ends. -/
def realSource (l : Layout) (t : FileTree) (path : String) : CanonicalPath :=
  l.canonicalizer.resolveLinks t (l.toSource path).text

/-- The name of an emitted file by its real source. -/
def realOutput (l : Layout) (t : FileTree) (path : String) : CanonicalPath :=
  l.toOutput (l.realSource t path).text

theorem Proper.realSource_text {l : Layout} (hl : l.Proper) (t : FileTree) (path : String) :
    l.realSource t (l.canonicalize path).text = l.realSource t path := by
  rw [realSource, hl.toSource_text, realSource]

theorem realSource_congr {l : Layout} {path other : String}
    (hSame : l.canonicalize path = l.canonicalize other) (t : FileTree) :
    l.realSource t path = l.realSource t other := by
  rw [realSource, toSource, reanchor_congr hSame, realSource, toSource]

/-- A real source of the source tree is the one that its output name stands for. -/
theorem Proper.toSource_realOutput {l : Layout} (hl : l.Proper) {t : FileTree} {path : String}
    (hReal : l.realSource t path ∈ l.below l.sourceRoot) :
    l.toSource (l.realOutput t path).text = l.realSource t path :=
  hl.toSource_toOutput hReal

end Layout

/-- A source tree with a directory and a link to it. -/
def FileTree.linked : FileTree :=
  ⟨[(["src"], .directory), (["src", "real"], .directory), (["src", "link"], .link "real")], []⟩

namespace OutputStore

variable {l : Layout} {t : FileTree}

/-- A write within the output tree reaches the two names of its file, which may be one. -/
theorem mem_writtenPaths_of_below (hl : l.Proper) {path : String} {q : CanonicalPath}
    (hBelow : l.canonicalize path ∈ l.below l.outputRoot) :
    q ∈ writtenPaths l t path ↔ q = l.canonicalize path ∨ q = l.realOutput t path := by
  have hSource : l.toSource (l.canonicalize path).text = l.toSource path := hl.toSource_text path
  rw [writtenPaths]
  simp only [hSource]
  by_cases hReal : l.realSource t path = l.toSource path
  · have hSame : l.realOutput t path = l.canonicalize path := by
      rw [Layout.realOutput, hReal, ← hSource, hl.toOutput_toSource hBelow]
    rw [Layout.realSource] at hReal
    rw [if_pos hReal, List.mem_singleton, hSame, or_self]
  · rw [Layout.realSource] at hReal
    rw [if_neg hReal, List.mem_cons, List.mem_singleton]
    rfl

/-! ## Both names read the same -/

/-- Two paths that read the same still do behind a write exactly if it reaches both or none of
them, or writes what they have. -/
theorem get?_write_eq_iff {store : OutputStore} {p q : CanonicalPath}
    (hSame : store.get? p = store.get? q) (path text : String) :
    (store.write l t path text).1.get? p = (store.write l t path text).1.get? q ↔
      (p ∈ writtenPaths l t path ↔ q ∈ writtenPaths l t path) ∨ store.get? p = some text := by
  by_cases hp : p ∈ writtenPaths l t path <;> by_cases hq : q ∈ writtenPaths l t path
  · rw [get?_write_of_mem hp, get?_write_of_mem hq]
    exact iff_of_true rfl (Or.inl (iff_of_true hp hq))
  · rw [get?_write_of_mem hp, get?_write_of_not_mem hq, ← hSame, eq_comm]
    exact (or_iff_right fun hIff => hq (hIff.1 hp)).symm
  · rw [get?_write_of_not_mem hp, get?_write_of_mem hq]
    exact (or_iff_right fun hIff => hp (hIff.2 hq)).symm
  · rw [get?_write_of_not_mem hp, get?_write_of_not_mem hq]
    exact iff_of_true hSame (Or.inl (iff_of_false hp hq))

/-- Every file of the output tree that is kept reads the same under both of its names. -/
def Coherent (l : Layout) (t : FileTree) (calls : List Call) : Prop :=
  ∀ path text, Stands calls t path text → l.canonicalize path ∈ l.below l.outputRoot →
    (performAll l .empty calls).read? l path =
      (performAll l .empty calls).get? (l.realOutput t path)

/-- A write of `text` to `path` treats both names of another file alike: it reaches both of them or
none, or it writes what that file has. -/
def TreatsAlike (l : Layout) (t : FileTree) (calls : List Call) (path text other : String) :
    Prop :=
  (l.canonicalize other ∈ writtenPaths l t path ↔ l.realOutput t other ∈ writtenPaths l t path) ∨
    (performAll l .empty calls).read? l other = some text

theorem coherent_nil : Coherent l t [] :=
  fun _ _ hStands => absurd hStands not_stands_nil

theorem coherent_clear (calls : List Call) : Coherent l t (calls ++ [.clear]) := by
  intro path text hStands
  rcases stands_concat_iff.1 hStands with hLast | ⟨-, hClear⟩
  · cases hLast
  · exact absurd rfl hClear

/-- A coherent store stays coherent behind a write exactly if that treats both names of every file
alike. -/
theorem Coherent.write_iff (hl : l.Proper) {calls : List Call} (h : Coherent l t calls)
    (path text : String) :
    Coherent l t (calls ++ [.write t path text]) ↔
      ∀ other written, Stands calls t other written →
        l.canonicalize other ∈ l.below l.outputRoot → TreatsAlike l t calls path text other := by
  have hAfter := performAll_write (l := l) .empty calls t path text
  constructor
  · intro hCoherent other written hStands hBelow
    have hBoth := hCoherent other written
      (stands_concat_iff.2 (Or.inr ⟨hStands, Call.noConfusion⟩)) hBelow
    rw [hAfter] at hBoth
    exact (get?_write_eq_iff (h other written hStands hBelow) path text).1 hBoth
  · intro hAlike other written hStands hBelow
    rw [hAfter]
    rcases stands_concat_iff.1 hStands with hLast | ⟨hBefore, -⟩
    -- the file that is written has both names reached, so only the others depend on `hAlike`
    · cases hLast
      have hReal : l.realOutput t path ∈ writtenPaths l t path :=
        (mem_writtenPaths_of_below hl hBelow).2 (Or.inr rfl)
      rw [read?, get?_write_of_mem (canonicalize_mem_writtenPaths l t path),
        get?_write_of_mem hReal]
    · exact (get?_write_eq_iff (h other written hBefore hBelow) path text).2
        (hAlike other written hBefore hBelow)

/-- **When both names of a file read the same.**  Over a tree that does not change, and in which the
walks of the run end, every file that is kept reads the same under its own name and under that of
its real source, at all times of a run, exactly if every write of the run treats the two names of
every file alike. -/
theorem coherent_iff (hl : l.Proper) {calls : List Call}
    (hTree : ∀ t' path text, .write t' path text ∈ calls → t' = t) :
    (∀ earlier, earlier <+: calls → Coherent l t earlier) ↔
      ∀ earlier path text, earlier ++ [.write t path text] <+: calls →
        ∀ other written, Stands earlier t other written →
          l.canonicalize other ∈ l.below l.outputRoot →
            TreatsAlike l t earlier path text other := by
  constructor
  · intro hAll earlier path text hPrefix
    have hBefore := hAll earlier ((List.prefix_append _ _).trans hPrefix)
    exact (hBefore.write_iff hl path text).1 (hAll _ hPrefix)
  · intro hAlike earlier hPrefix
    -- from call to call: a clear makes any store coherent, a write keeps it by `Coherent.write_iff`
    induction earlier using List.reverseRecOn with
    | nil => exact coherent_nil
    | append_singleton earlier call ih =>
      have hBefore := ih ((List.prefix_append _ _).trans hPrefix)
      cases call with
      | clear => exact coherent_clear earlier
      | write t' path text =>
        obtain rfl : t' = t := hTree t' path text (hPrefix.subset (by simp))
        exact (hBefore.write_iff hl path text).2 (hAlike earlier path text hPrefix)

/-- A file that is emitted through a directory that may be a link. -/
theorem linked_mem_below :
    Layout.sideBySide.canonicalize "dist/link/c" ∈
      Layout.sideBySide.below Layout.sideBySide.outputRoot :=
  ⟨⟨_, rfl⟩, by decide +kernel, by decide +kernel⟩

/-- A file that is written through a link and then under its real name, with the same text. -/
theorem coherent_iff_same_text :
    let l := Layout.sideBySide
    let t := FileTree.linked
    let calls := [.write t "dist/link/c" "one", .write t "dist/real/c" "one"]
    l.Proper ∧ (∀ t' path text, .write t' path text ∈ calls → t' = t) ∧ Coherent l t calls := by
  intro l t calls
  have hl : l.Proper := Layout.proper_sideBySide
  have hTree : ∀ t' path text, .write t' path text ∈ calls → t' = t := by
    intro t' path text hMem
    simp only [calls, List.mem_cons, Call.write.injEq, List.not_mem_nil, or_false] at hMem
    rcases hMem with h | h <;> exact h.1
  refine ⟨hl, hTree, (coherent_iff hl hTree).2 ?_ calls (List.prefix_refl calls)⟩
  intro earlier path text hPrefix other written hStands hBelow
  match earlier, hPrefix with
  | [], _ => exact absurd hStands not_stands_nil
  | [first], hPrefix =>
    obtain ⟨rfl, hRest⟩ := List.cons_prefix_cons.1 hPrefix
    obtain ⟨hSecond, -⟩ := List.cons_prefix_cons.1 hRest
    cases hSecond
    rw [← List.nil_append [_], stands_concat_iff] at hStands
    rcases hStands with hFirst | ⟨hNone, -⟩
    · cases hFirst
      refine Or.inr ?_
      rw [read?, ← List.nil_append [_], performAll_write]
      exact get?_write_of_mem (canonicalize_mem_writtenPaths l t _) _ _
    · exact absurd hNone not_stands_nil
  | first :: second :: rest, hPrefix =>
    have hLength := hPrefix.length_le
    simp [calls] at hLength

/-- A file that is written through a link, and then under its real name with another text, reads
differently under its two names. -/
theorem not_coherent_real_name_last :
    let l := Layout.sideBySide
    let t := FileTree.linked
    let calls := [.write t "dist/link/c" "one", .write t "dist/real/c" "two"]
    (performAll l .empty calls).read? l "dist/link/c" = some "one" ∧
      (performAll l .empty calls).get? (l.realOutput t "dist/link/c") = some "two" ∧
      ¬ Coherent l t calls := by
  intro l t calls
  have hCalls : calls = [] ++ [.write t "dist/link/c" "one"] ++ [.write t "dist/real/c" "two"] :=
    rfl
  have hSpared : l.canonicalize "dist/link/c" ∉ writtenPaths l t "dist/real/c" := by
    decide +kernel
  have hName : l.realOutput t "dist/link/c" = l.canonicalize "dist/real/c" := by
    decide +kernel
  have hBelow : l.canonicalize "dist/link/c" ∈ l.below l.outputRoot := linked_mem_below
  have hLink : (performAll l .empty calls).read? l "dist/link/c" = some "one" := by
    rw [read?, hCalls, performAll_write, get?_write_of_not_mem hSpared, performAll_write,
      get?_write_of_mem (canonicalize_mem_writtenPaths l t _)]
  have hReal : (performAll l .empty calls).get? (l.realOutput t "dist/link/c") = some "two" := by
    rw [hName, hCalls, performAll_write, get?_write_of_mem (canonicalize_mem_writtenPaths l t _)]
  refine ⟨hLink, hReal, fun hCoherent => ?_⟩
  have hSame := hCoherent "dist/link/c" "one" ⟨[], _, rfl, by simp⟩ hBelow
  rw [hLink, hReal] at hSame
  exact absurd (Option.some.inj hSame) (by decide)

/-! ## The files of other sources -/

/-- **When a write leaves the files of other sources alone.**  Of an emitted file every write that
comes back, to whatever store, leaves the files of all other real sources as they were, exactly if
its name by the real source, where that is in the output tree, belongs to the same real source.  It
does if the real source is in the source tree, and no link leads on from there. -/
theorem write_spares_others_iff (hl : l.Proper) (t : FileTree) {path : String}
    (hPath : l.canonicalize path ∈ l.below l.outputRoot) :
    ((∀ (store : OutputStore) text other, l.canonicalize other ∈ l.below l.outputRoot →
        l.realSource t other ≠ l.realSource t path →
          (store.write l t path text).1.read? l other = store.read? l other) ↔
      (l.realOutput t path ∈ l.below l.outputRoot →
        l.realSource t (l.realOutput t path).text = l.realSource t path)) ∧
    (l.realSource t path ∈ l.below l.sourceRoot →
      l.canonicalizer.resolveLinks t (l.realSource t path).text = l.realSource t path →
        l.realSource t (l.realOutput t path).text = l.realSource t path) := by
  have hReaches : l.realOutput t path ∈ writtenPaths l t path :=
    (mem_writtenPaths_of_below hl hPath).2 (Or.inr rfl)
  refine ⟨⟨?_, ?_⟩, ?_⟩
  · intro hSpares hBelow
    -- an empty store shows it: behind the write something is read at the name by the real source
    by_contra hOther
    obtain ⟨spelling, hSpelling⟩ := hBelow.1
    have hName : l.canonicalize (l.realOutput t path).text = l.realOutput t path := by
      rw [← hSpelling, hl.canonicalize_text]
    have hRead := hSpares .empty "text" _ (by rwa [hName]) hOther
    rw [read?, read?, hName, get?_write_of_mem hReaches, get?_empty] at hRead
    cases hRead
  · intro hReal store text other hBelow hOther
    refine get?_write_of_not_mem ?_ store text
    -- neither name of the file is a name of another source's file
    rw [mem_writtenPaths_of_below hl hPath]
    rintro (hSame | hSame)
    · exact hOther (Layout.realSource_congr hSame t)
    · rw [hSame] at hBelow
      exact hOther (by rw [← hl.realSource_text, hSame, hReal hBelow])
  · intro hBelow hFixed
    rw [Layout.realSource, hl.toSource_realOutput hBelow, hFixed]

/-- A link from the source tree to a directory of the same tree keeps to its own files. -/
theorem write_spares_others_within_tree :
    let l := Layout.sideBySide
    let t := FileTree.linked
    l.Proper ∧ l.canonicalize "dist/link/c" ∈ l.below l.outputRoot ∧
      ∀ (store : OutputStore) text other, l.canonicalize other ∈ l.below l.outputRoot →
        l.realSource t other ≠ l.realSource t "dist/link/c" →
          (store.write l t "dist/link/c" text).1.read? l other = store.read? l other := by
  intro l t
  have hl : l.Proper := Layout.proper_sideBySide
  have hBelow : l.canonicalize "dist/link/c" ∈ l.below l.outputRoot := linked_mem_below
  have hSource : l.realSource t "dist/link/c" = l.canonicalize "src/real/c" := by decide +kernel
  obtain ⟨hSpares, hReal⟩ := write_spares_others_iff hl t hBelow
  refine ⟨hl, hBelow, hSpares.2 fun _ => hReal ?_ ?_⟩
  · rw [hSource]
    exact ⟨⟨_, rfl⟩, by decide +kernel, by decide +kernel⟩
  · rw [hSource]
    decide +kernel

/-- A link that leads from the source tree into the output tree: a file that is written through it
takes the place of another file, whose source is not reached through any link. -/
theorem write_replaces_other_source :
    let l := Layout.sideBySide
    let t : FileTree := ⟨[(["src"], .directory), (["dist"], .directory),
      (["dist", "x"], .directory), (["src", "link"], .link "../dist/x")], []⟩
    let store := (OutputStore.empty.write l t "dist/x/c" "own").1
    l.canonicalize "dist/link/c" ∈ l.below l.outputRoot ∧
      l.canonicalize "dist/x/c" ∈ l.below l.outputRoot ∧
      l.realSource t "dist/x/c" ≠ l.realSource t "dist/link/c" ∧
      store.read? l "dist/x/c" = some "own" ∧
      (store.write l t "dist/link/c" "other").1.read? l "dist/x/c" = some "other" := by
  intro l t store
  have hLink : l.canonicalize "dist/link/c" ∈ l.below l.outputRoot := linked_mem_below
  have hOwn : l.canonicalize "dist/x/c" ∈ l.below l.outputRoot :=
    ⟨⟨_, rfl⟩, by decide +kernel, by decide +kernel⟩
  have hReaches : l.canonicalize "dist/x/c" ∈ writtenPaths l t "dist/link/c" := by decide +kernel
  refine ⟨hLink, hOwn, by decide +kernel, ?_, ?_⟩
  · rw [read?, get?_write_of_mem (canonicalize_mem_writtenPaths l t _)]
  · rw [read?, get?_write_of_mem hReaches]

end OutputStore

end CompileHost
