import CompileHost.Proofs.Path.Joining
import CompileHost.Proofs.Path.RoundTrip

/-!
# The shortest way

Normal directories with one root are the places of a tree, and each segment of a way leads from a
place to one beside it, or nowhere.  The number of segments of `climb` is how far two places are
apart, and no step changes it by more than one.  So a way has at least as many segments as
`relative`, which leads up to where the two paths part and down from there.

* `length_climb_push_le`: one step.
* `length_climb_le`: a whole way.
* `resolveDots_append_climb`: `climb` is a way.
* `relative_shortest`: what `relative` gives for two normal paths with one root.
-/

namespace CompileHost.Path

open Text

variable {root source target : String} {above below : List String}

/-! ## One step -/

/-- A segment more brings a place one step nearer to another one, or one step away from it. -/
theorem length_climb_concat_le (above below : List String) (s : String) :
    (climb (above ++ [s]) below).length ≤ (climb above below).length + 1 ∧
      (climb above below).length ≤ (climb (above ++ [s]) below).length + 1 := by
  induction above generalizing below with
  | nil =>
    cases below with
    | nil => simp [climb]
    | cons b below =>
      rw [List.nil_append, climb]
      split
      · simp [climb]
        omega
      · simp [climb]
  | cons a above ih =>
    cases below with
    | nil => simp [climb]
    | cons b below =>
      rw [List.cons_append, climb, climb]
      split
      · exact ih below
      · simp
        omega

/-- A segment leads nowhere, or takes the nearest one away, or stands behind those so far. -/
theorem pushSegment_cases (walked : List String) (s : String) :
    pushSegment true walked s = walked ∨
      (∃ nearest, walked = nearest :: pushSegment true walked s) ∨
      pushSegment true walked s = s :: walked := by
  rw [pushSegment.eq_def]
  split
  · exact Or.inl rfl
  · split
    · cases walked with
      | nil => exact Or.inl rfl
      | cons nearest above =>
        dsimp only
        split
        · exact Or.inr (Or.inl ⟨nearest, rfl⟩)
        · exact Or.inl rfl
    · exact Or.inr (Or.inr rfl)

theorem length_climb_push_le (walked below : List String) (s : String) :
    (climb walked.reverse below).length ≤
      (climb (pushSegment true walked s).reverse below).length + 1 := by
  rcases pushSegment_cases walked s with hStays | ⟨nearest, hUp⟩ | hDown
  · rw [hStays]
    exact Nat.le_succ _
  · generalize pushSegment true walked s = above at hUp
    rw [hUp, List.reverse_cons]
    exact (length_climb_concat_le above.reverse below nearest).1
  · rw [hDown, List.reverse_cons]
    exact (length_climb_concat_le walked.reverse below s).2

/-! ## A whole way -/

/-- No way is shorter than two places are apart. -/
theorem length_climb_foldl_le (way walked below : List String) :
    (climb walked.reverse below).length ≤
      (climb (way.foldl (pushSegment true) walked).reverse below).length + way.length := by
  induction way generalizing walked with
  | nil => exact Nat.le_refl _
  | cons s way ih =>
    have hStep := length_climb_push_le walked below s
    have hRest := ih (pushSegment true walked s)
    rw [List.foldl_cons, List.length_cons]
    omega

theorem climb_self (segments : List String) : climb segments segments = [] := by
  induction segments with
  | nil => rfl
  | cons s segments ih => rw [climb, if_pos rfl, ih]

/-- A way from one place to another has at least the segments of `climb`, apart from those that
lead nowhere. -/
theorem length_climb_le {way : List String} (hAbove : ∀ s ∈ above, Plain s)
    (hWay : resolveDots true (above ++ way) = below) :
    (climb above below).length ≤ (way.filter moves).length := by
  have h := length_climb_foldl_le (way.filter moves) above.reverse below
  have hWalked : ((way.filter moves).foldl (pushSegment true) above.reverse).reverse = below := by
    rw [← hWay, ← resolveDots_append_filter, resolveDots, List.foldl_append,
      foldl_pushSegment_plain hAbove, List.append_nil]
  rwa [hWalked, climb_self, List.length_nil, Nat.zero_add, List.reverse_reverse] at h

/-- `climb` leads from one place to the other. -/
theorem resolveDots_append_climb (hAbove : ∀ s ∈ above, Plain s) (hBelow : ∀ s ∈ below, Plain s) :
    resolveDots true (above ++ climb above below) = below := by
  obtain ⟨shared, hLeft, hRight, -⟩ := exists_shared above below
  have hRest : ∀ s ∈ (partWays above below).2, Plain s :=
    fun s hs => hBelow s (mem_of_mem_partWays hs)
  have hShared : above.take (above.length - (partWays above below).1.length) = shared := by
    generalize (partWays above below).1 = left at hLeft
    rw [hLeft, List.length_append, Nat.add_sub_cancel, List.take_left]
  rw [climb_eq, resolveDots_climb hAbove hRest, hShared, ← hRight]

theorem climb_eq_nil_iff : climb above below = [] ↔ above = below := by
  constructor
  · intro hNone
    obtain ⟨shared, hLeft, hRight, -⟩ := exists_shared above below
    rw [climb_eq, List.append_eq_nil_iff, List.replicate_eq_nil_iff,
      List.length_eq_zero_iff] at hNone
    rw [hNone.1, List.append_nil] at hLeft
    rw [hNone.2, List.append_nil] at hRight
    exact hLeft.trans hRight.symm
  · rintro rfl
    exact climb_self above

/-! ## The text of a way -/

/-- The segments of a way that lead somewhere. -/
def steps (way : String) : List String :=
  (pieces (slashes way)).filter moves

/-- `climb` consists of steps up and of plain segments. -/
theorem moves_of_mem_climb (hBelow : ∀ s ∈ below, Plain s) {s : String}
    (hs : s ∈ climb above below) : moves s = true ∧ '/' ∉ s.toList ∧ '\\' ∉ s.toList := by
  rw [climb_eq] at hs
  rcases List.mem_append.1 hs with hUp | hDown
  · rw [List.eq_of_mem_replicate hUp]
    decide
  · have hPlain : Plain s := hBelow s (mem_of_mem_partWays hDown)
    refine ⟨?_, hPlain.no_slash, hPlain.no_backslash⟩
    simp [moves, hPlain.ne_empty, hPlain.ne_dot]

theorem slashes_climb (hBelow : ∀ s ∈ below, Plain s) :
    slashes (joined (climb above below)) = joined (climb above below) :=
  slashes_eq_self (not_mem_joined (by decide) fun _ hs => (moves_of_mem_climb hBelow hs).2.2)

theorem steps_climb (hBelow : ∀ s ∈ below, Plain s) :
    steps (joined (climb above below)) = climb above below := by
  rw [steps, slashes_climb hBelow]
  by_cases hNone : climb above below = []
  · rw [hNone]
    rfl
  · rw [pieces_joined hNone fun s hs => (moves_of_mem_climb hBelow hs).2.1, List.filter_eq_self]
    exact fun s hs => (moves_of_mem_climb hBelow hs).1

theorem joined_climb_eq_empty_iff (hBelow : ∀ s ∈ below, Plain s) :
    joined (climb above below) = "" ↔ above = below := by
  constructor
  · intro hEmpty
    rw [← climb_eq_nil_iff, ← steps_climb hBelow, hEmpty]
    rfl
  · intro hSame
    rw [climb_eq_nil_iff.2 hSame]
    rfl

/-! ## Normal paths with a root -/

theorem exists_text_of_normal (hAbs : isAbsolute source = true)
    (hNormal : normalize source = source) :
    ∃ root segments, IsRoot root ∧ (∀ s ∈ segments, Plain s) ∧
      source = Parts.text ⟨root, segments⟩ := by
  obtain ⟨root, base, hRoot, hPath⟩ := exists_root_of_isAbsolute hAbs
  have hBackslash : '\\' ∉ root.toList := by
    have h : '\\' ∉ (Parts.text ⟨root, []⟩).toList :=
      backslash_not_mem_text hRoot fun _ hNone => absurd hNone List.not_mem_nil
    rwa [text_nil] at h
  have hSlashes : slashes source = root ++ slashes base := by
    rw [hPath, slashes_append, slashes_eq_self hBackslash]
  refine ⟨root, _, hRoot, Canonicalizer.plain_pieces_of_slashes hSlashes, ?_⟩
  rw [← normalize_of_slashes hRoot hSlashes, hNormal]

theorem relative_text (hRoot : IsRoot root) (hAbove : ∀ s ∈ above, Plain s)
    (hBelow : ∀ s ∈ below, Plain s) :
    relative (Parts.text ⟨root, above⟩) (Parts.text ⟨root, below⟩) =
      joined (climb above below) := by
  have hSame : (CanonicalPath.of root above).root = (CanonicalPath.of root below).root := by
    rw [CanonicalPath.root_of hRoot hAbove, CanonicalPath.root_of hRoot hBelow]
  have h := Layout.relative_eq hSame
  rwa [CanonicalPath.segments_of hRoot hAbove, CanonicalPath.segments_of hRoot hBelow] at h

theorem text_inj (hRoot : IsRoot root) (hAbove : ∀ s ∈ above, Plain s)
    (hBelow : ∀ s ∈ below, Plain s) :
    Parts.text ⟨root, above⟩ = Parts.text ⟨root, below⟩ ↔ above = below := by
  constructor
  · intro hSame
    rw [← (parts_text hRoot hAbove).2, hSame, (parts_text hRoot hBelow).2]
  · rintro rfl
    rfl

/-- **The shortest way.**  For two normal paths with one root, `relative` leads from the first to
the second: up some steps, and then down plain segments.  It is empty exactly if the two are the
same path.  Whatever else is joined to the first and leads to the second, be it normal or not, has
at least as many segments that lead somewhere. -/
theorem relative_shortest (hSource : isAbsolute source = true)
    (hSourceNormal : normalize source = source) (hTarget : isAbsolute target = true)
    (hTargetNormal : normalize target = target)
    (hRoot : (parts source).root = (parts target).root) :
    normalize (join source (relative source target)) = target ∧
      (∃ ups down, relative source target = joined (List.replicate ups ".." ++ down) ∧
        ∀ s ∈ down, Plain s) ∧
      (relative source target = "" ↔ source = target) ∧
      ∀ way, normalize (join source way) = target →
        (steps (relative source target)).length ≤ (steps way).length := by
  obtain ⟨root, above, hIsRoot, hAbove, rfl⟩ := exists_text_of_normal hSource hSourceNormal
  obtain ⟨other, below, hIsOther, hBelow, rfl⟩ := exists_text_of_normal hTarget hTargetNormal
  rw [(parts_text hIsRoot hAbove).1, (parts_text hIsOther hBelow).1] at hRoot
  subst hRoot
  rw [relative_text hIsRoot hAbove hBelow]
  refine ⟨?_, ?_, ?_, ?_⟩
  · rw [normalize_join_text hIsRoot hAbove, slashes_climb hBelow, resolveDots_append_pieces
      fun s hs => (moves_of_mem_climb hBelow hs).2.1, resolveDots_append_climb hAbove hBelow]
  · exact ⟨_, _, congrArg joined (climb_eq above below),
      fun s hs => hBelow s (mem_of_mem_partWays hs)⟩
  · rw [joined_climb_eq_empty_iff hBelow, text_inj hIsRoot hAbove hBelow]
  · intro way hWay
    rw [normalize_join_text hIsRoot hAbove, text_inj hIsRoot
      (plain_resolveDots_append hAbove way) hBelow] at hWay
    rw [steps_climb hBelow, steps]
    exact length_climb_le hAbove hWay

/-- On a drive, up to the root and down into a directory that is named like a drive. -/
theorem relative_shortest_beyond_root :
    let source := "C:/src/app"
    let target := "C:/D:/src"
    (isAbsolute source = true ∧ normalize source = source ∧ isAbsolute target = true ∧
        normalize target = target ∧ (parts source).root = (parts target).root) ∧
      relative source target = "../../D:/src" ∧
      normalize (join source "../../D:/src") = target ∧
      ∀ way, normalize (join source way) = target → 4 ≤ (steps way).length := by
  intro source target
  have hSource : isAbsolute source = true := by decide
  have hSourceNormal : normalize source = source := by decide +kernel
  have hTarget : isAbsolute target = true := by decide
  have hTargetNormal : normalize target = target := by decide +kernel
  have hRoot : (parts source).root = (parts target).root := by decide +kernel
  have hRelative : relative source target = "../../D:/src" := by decide +kernel
  obtain ⟨hLeads, -, -, hShortest⟩ :=
    relative_shortest hSource hSourceNormal hTarget hTargetNormal hRoot
  rw [hRelative] at hLeads hShortest
  refine ⟨⟨hSource, hSourceNormal, hTarget, hTargetNormal, hRoot⟩, hRelative, hLeads, ?_⟩
  exact fun way hWay => hShortest way hWay

end CompileHost.Path
