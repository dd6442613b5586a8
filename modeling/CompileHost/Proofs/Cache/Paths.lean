import CompileHost.SourceCache

/-!
# The paths of a generation

The paths of the current generation with a property of their records come in ascending order, each
once.  So the list is determined by what the cache answers for every path.
-/

namespace CompileHost.SourceCache

variable {P : Type}

theorem mem_pathsWhere {cache : SourceCache P} {p : SourceRecord P → Bool}
    {path : CanonicalPath} :
    path ∈ cache.pathsWhere p ↔ ∃ source, cache.get? path = some source ∧ p source = true := by
  simp [pathsWhere, get?, Std.TreeMap.mem_toList_iff_getElem?_eq_some]

theorem mem_observedPaths {cache : SourceCache P} {path : CanonicalPath} :
    path ∈ cache.observedPaths ↔ (cache.get? path).isSome = true := by
  simp [observedPaths, mem_pathsWhere, Option.isSome_iff_exists]

theorem pairwise_pathsWhere (cache : SourceCache P) (p : SourceRecord P → Bool) :
    (cache.pathsWhere p).Pairwise fun a b => compare a b = .lt := by
  have hKeys := Std.TreeMap.ordered_keys_toList (t := cache.current)
  rw [pathsWhere, List.pairwise_map]
  exact hKeys.filter _

theorem nodup_pathsWhere (cache : SourceCache P) (p : SourceRecord P → Bool) :
    (cache.pathsWhere p).Nodup := by
  refine (cache.pairwise_pathsWhere p).imp fun {a b} hLt => ?_
  rintro rfl
  exact Std.OrientedCmp.not_lt_of_lt hLt hLt

/-- Lists of paths of two caches are equal if they have the same members. -/
theorem pathsWhere_congr {cache cache' : SourceCache P} {p p' : SourceRecord P → Bool}
    (h : ∀ path, (∃ source, cache.get? path = some source ∧ p source = true) ↔
      ∃ source, cache'.get? path = some source ∧ p' source = true) :
    cache.pathsWhere p = cache'.pathsWhere p' := by
  have hPerm : (cache.pathsWhere p).Perm (cache'.pathsWhere p') := by
    refine (List.perm_ext_iff_of_nodup (nodup_pathsWhere ..) (nodup_pathsWhere ..)).2 ?_
    intro path
    rw [mem_pathsWhere, mem_pathsWhere]
    exact h path
  refine hPerm.eq_of_pairwise ?_ (pairwise_pathsWhere ..) (pairwise_pathsWhere ..)
  intro a b _ _ hLt hGt
  exact absurd hGt (Std.OrientedCmp.not_lt_of_lt hLt)

/-- A property of records that can be told from their paths picks some of the observed paths. -/
theorem pathsWhere_eq_filter {cache : SourceCache P} {p : SourceRecord P → Bool}
    {q : CanonicalPath → Bool}
    (h : ∀ path source, cache.get? path = some source → p source = q path) :
    cache.pathsWhere p = cache.observedPaths.filter q := by
  have hAll : cache.observedPaths = cache.current.toList.map (·.1) :=
    congrArg (List.map _) (List.filter_eq_self.2 fun _ _ => rfl)
  rw [hAll, pathsWhere, List.filter_map]
  congr 1
  refine List.filter_congr fun entry hEntry => ?_
  exact h entry.1 entry.2 (Std.TreeMap.mem_toList_iff_getElem?_eq_some.1 hEntry)

end CompileHost.SourceCache
