import CompileHost.SourceCache

/-!
# What an addition does to a cache

An addition takes over a record of the current generation with the same contents, else one of the
generation before, and else parses.  In each case it records the source in the current generation,
and leaves the generation before, the number of the generation and the other sources alone.

* `reusable?_eq_some_iff`, `reusable?_eq_none_iff`: when a record is taken over.
* `add_snd_of_reusable`, `add_snd_of_fresh`, `parses_add`: what is handed out, and at what cost.
* `get?_add`, `getPrevious?_add`, `generation_add`: what is recorded.
* `add_congr`: an addition asks at most for one parse, that of the name and the contents given.
-/

namespace CompileHost.SourceCache

variable {P : Type}

/-! ## Taking over -/

theorem reusable?_eq_some_iff {cache : SourceCache P} {path : CanonicalPath} {contents : String}
    {source : SourceRecord P} :
    cache.reusable? path contents = some source ↔
      source.contents = contents ∧
        (cache.get? path = some source ∨
          (∀ s, cache.get? path = some s → s.contents ≠ contents) ∧
            cache.getPrevious? path = some source) := by
  unfold reusable?
  cases hCurrent : cache.get? path with
  | none => simp [Option.filter_eq_some_iff, and_comm]
  | some s =>
    by_cases hSame : s.contents = contents
    · simp only [Option.filter_some, hSame, decide_true, if_true, Option.some_or,
        Option.some.injEq]
      constructor
      · rintro rfl
        exact ⟨hSame, Or.inl rfl⟩
      · rintro ⟨-, h | ⟨h, -⟩⟩
        · exact h
        · exact absurd hSame (h s rfl)
    · simp only [Option.filter_some, hSame, decide_false, Bool.false_eq_true, if_false,
        Option.none_or, Option.filter_eq_some_iff, decide_eq_true_eq, Option.some.injEq]
      constructor
      · rintro ⟨h, hc⟩
        exact ⟨hc, Or.inr ⟨fun t ht => ht ▸ hSame, h⟩⟩
      · rintro ⟨hc, rfl | ⟨-, h⟩⟩
        · exact absurd hc hSame
        · exact ⟨h, hc⟩

theorem reusable?_eq_none_iff {cache : SourceCache P} {path : CanonicalPath} {contents : String} :
    cache.reusable? path contents = none ↔
      (∀ s, cache.get? path = some s → s.contents ≠ contents) ∧
        ∀ s, cache.getPrevious? path = some s → s.contents ≠ contents := by
  simp [reusable?, Option.or_eq_none_iff, Option.filter_eq_none_iff]

/-- What can be taken over is recorded in one of the two generations. -/
theorem recorded_of_reusable? {cache : SourceCache P} {path : CanonicalPath} {contents : String}
    {source : SourceRecord P} (h : cache.reusable? path contents = some source) :
    cache.get? path = some source ∨ cache.getPrevious? path = some source :=
  (reusable?_eq_some_iff.1 h).2.imp_right And.right

/-! ## One addition -/

section Addition

variable (cache : SourceCache P) (path : CanonicalPath) (name contents : String) (isRoot : Bool)
  (parse : String → String → P)

/-- The generation in which the parsed value of an addition was made. -/
def versionFor : Nat :=
  match cache.reusable? path contents with
  | some source => source.version
  | none => cache.generation

variable {cache path contents} in
theorem add_snd_of_reusable {source : SourceRecord P}
    (h : cache.reusable? path contents = some source) :
    (cache.add path name contents isRoot parse).2 = source.parsed := by
  simp [add, obtain, h]

variable {cache path contents} in
theorem add_snd_of_fresh (h : cache.reusable? path contents = none) :
    (cache.add path name contents isRoot parse).2 = ⟨cache.parses + 1, parse name contents⟩ := by
  simp [add, obtain, h]

theorem parses_add :
    (cache.add path name contents isRoot parse).1.parses =
      cache.parses + if (cache.reusable? path contents).isSome then 0 else 1 := by
  cases h : cache.reusable? path contents <;> simp [add, obtain, record, h]

theorem get?_add (other : CanonicalPath) :
    (cache.add path name contents isRoot parse).1.get? other =
      if path = other then
        some ⟨name, contents, (cache.add path name contents isRoot parse).2,
          cache.versionFor path contents, isRoot, Path.isDependencyModule path.text⟩
      else cache.get? other := by
  simp only [add, get?_record, get?_obtain]
  congr 3
  cases h : cache.reusable? path contents <;> simp [obtain, versionFor, h]

theorem getPrevious?_add (other : CanonicalPath) :
    (cache.add path name contents isRoot parse).1.getPrevious? other =
      cache.getPrevious? other := by
  simp [add, getPrevious?_obtain]

theorem generation_add :
    (cache.add path name contents isRoot parse).1.generation = cache.generation := by
  cases h : cache.reusable? path contents <;> simp [add, obtain, record, h]

variable {parse} in
/-- Where a record is taken over the parser does not count at all, and elsewhere only what it
makes of the given name and contents. -/
theorem add_congr {parse' : String → String → P}
    (h : cache.reusable? path contents = none → parse' name contents = parse name contents) :
    cache.add path name contents isRoot parse' = cache.add path name contents isRoot parse := by
  have hObtain : cache.obtain path name contents parse' =
      cache.obtain path name contents parse := by
    unfold obtain
    split
    · rfl
    · rename_i hNone
      rw [h hNone]
  simp only [add, hObtain]

end Addition

end CompileHost.SourceCache
