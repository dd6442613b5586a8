import CompileHost.Path.Layout
import CompileHost.Proofs.Path.NormalForm
import Mathlib.Data.Set.Function

/-!
# There and back between the two trees

A path is carried from one tree to the other by going up from the root of its own tree to where
the two ways part, and down from there; the same steps are then taken from the root of the other
tree.  Steps up are lost at the root of a drive, and a step down may follow a step up into the
same segment, so that the way back is not always the way there.

`Returns` is the exact condition under which it is.  It holds for everything below the root of the
own tree, and so the two trees are in bijection.

* `carried_carried_iff`: the condition, for lists of segments.
* `reanchor_reanchor_iff`: the condition, for canonical paths.
* `toSource_toOutput_iff`: both round trips of a layout, and the bijections.
-/

namespace CompileHost

open CompileHost.Path

namespace Path

/-! ## Where two ways part -/

/-- What two lists of segments have behind the longest beginning that they share. -/
def partWays : List String → List String → List String × List String
  | a :: as, b :: bs => if a = b then partWays as bs else (a :: as, b :: bs)
  | as, bs => (as, bs)

theorem climb_eq (source target : List String) :
    climb source target = List.replicate (partWays source target).1.length ".." ++
      (partWays source target).2 := by
  fun_induction partWays source target with
  | case1 as s bs ih => rw [climb, if_pos rfl, ih]
  | case2 a as b bs hApart => rw [climb, if_neg hApart, List.map_const', List.length_cons]
  | case3 as bs hEnd => rw [climb.eq_2 _ _ hEnd, List.map_const']

/-- Both lists go on behind the beginning that they share, and go on differently. -/
theorem exists_shared (as bs : List String) :
    ∃ shared, as = shared ++ (partWays as bs).1 ∧ bs = shared ++ (partWays as bs).2 ∧
      ∀ s ∈ (partWays as bs).1.head?, s ∉ (partWays as bs).2.head? := by
  fun_induction partWays as bs with
  | case1 as s bs ih =>
    obtain ⟨shared, hLeft, hRight, hApart⟩ := ih
    exact ⟨s :: shared, congrArg (s :: ·) hLeft, congrArg (s :: ·) hRight, hApart⟩
  | case2 a as b bs hApart =>
    refine ⟨[], rfl, rfl, ?_⟩
    rintro s ⟨⟩ ⟨⟩
    exact hApart rfl
  | case3 as bs hEnd =>
    refine ⟨[], rfl, rfl, ?_⟩
    cases as with
    | nil => exact fun s hs => absurd hs (Option.not_mem_none s)
    | cons a as =>
      cases bs with
      | nil => exact fun s _ => Option.not_mem_none s
      | cons b bs => exact absurd rfl (hEnd a as b bs rfl)

theorem mem_of_mem_partWays {as bs : List String} {s : String} (hs : s ∈ (partWays as bs).2) :
    s ∈ bs := by
  obtain ⟨shared, -, hRight, -⟩ := exists_shared as bs
  rw [hRight]
  exact List.mem_append_right _ hs

theorem partWays_append (shared as bs : List String) :
    partWays (shared ++ as) (shared ++ bs) = partWays as bs := by
  induction shared with
  | nil => rfl
  | cons s shared ih =>
    rw [List.cons_append, List.cons_append, partWays, if_pos rfl, ih]

theorem partWays_nil (bs : List String) : partWays [] bs = ([], bs) := rfl

theorem partWays_nil_right (as : List String) : partWays as [] = (as, []) := by
  cases as <;> rfl

theorem length_partWays_le (as bs : List String) : (partWays as bs).1.length ≤ as.length := by
  obtain ⟨shared, hLeft, -⟩ := exists_shared as bs
  have hLength := congrArg List.length hLeft
  rw [List.length_append] at hLength
  omega

/-- Ways that part at once share nothing. -/
theorem partWays_of_length {as bs : List String}
    (hLength : (partWays as bs).1.length = as.length) : partWays as bs = (as, bs) := by
  obtain ⟨shared, hLeft, hRight, -⟩ := exists_shared as bs
  have hShared : shared = [] := by
    have h := congrArg List.length hLeft
    rw [List.length_append] at h
    exact List.eq_nil_of_length_eq_zero (by omega)
  rw [hShared, List.nil_append] at hLeft hRight
  exact Prod.ext hLeft.symm hRight.symm

/-! ## Carrying segments over -/

/-- The segments of the place that lies to `target` as `path` lies to `source`. -/
def carried (source target path : List String) : List String :=
  target.take (target.length - (partWays source path).1.length) ++ (partWays source path).2

/-- When a path that is carried over comes back to where it was.  It does from below the root of
its own tree.  Otherwise there are as many steps up as segments of `source` are left, the other
root must allow for all of them, and the first step down must not undo the last step up. -/
def Returns (source target path : List String) : Prop :=
  (partWays source path).1 = [] ∨
    (partWays source path).1.length ≤ target.length ∧
      ((partWays source path).2 = [] ∨
        (partWays source path).2.head? ≠
          target[target.length - (partWays source path).1.length]?)

instance (source target path : List String) : Decidable (Returns source target path) :=
  inferInstanceAs (Decidable (_ ∨ _))

/-- Ways part at once if one of them ends, or if they begin differently. -/
theorem length_partWays_eq_iff (as bs : List String) :
    (partWays as bs).1.length = as.length ↔ as = [] ∨ bs = [] ∨ bs.head? ≠ as.head? := by
  cases as with
  | nil => exact ⟨fun _ => Or.inl rfl, fun _ => rfl⟩
  | cons a as =>
    cases bs with
    | nil =>
      rw [partWays_nil_right]
      exact ⟨fun _ => Or.inr (Or.inl rfl), fun _ => rfl⟩
    | cons b bs =>
      have hRest := length_partWays_le as bs
      rw [partWays, List.length_cons]
      by_cases hSame : a = b
      · rw [if_pos hSame]
        constructor
        · intro h
          omega
        · rintro (hNil | hNil | hHeads)
          · cases hNil
          · cases hNil
          · exact absurd (congrArg some hSame.symm) hHeads
      · rw [if_neg hSame]
        constructor
        · intro _
          exact Or.inr (Or.inr fun h => hSame (Option.some.inj h).symm)
        · intro _
          rfl

/-- The steps up are taken back one by one exactly if none was lost and none is undone. -/
theorem length_partWays_drop_iff (target right : List String) (ups : Nat) :
    (partWays (target.drop (target.length - ups)) right).1.length = ups ↔
      ups = 0 ∨ ups ≤ target.length ∧
        (right = [] ∨ right.head? ≠ target[target.length - ups]?) := by
  by_cases hUps : ups ≤ target.length
  · have hLength : (target.drop (target.length - ups)).length = ups := by
      rw [List.length_drop]
      omega
    have hNil : target.drop (target.length - ups) = [] ↔ ups = 0 := by
      rw [← List.length_eq_zero_iff, hLength]
    have h := length_partWays_eq_iff (target.drop (target.length - ups)) right
    rw [hLength, hNil, List.head?_drop] at h
    rw [h, and_iff_right hUps]
  · have hBound := length_partWays_le (target.drop (target.length - ups)) right
    rw [List.length_drop] at hBound
    constructor
    · intro h
      omega
    · rintro (hZero | ⟨hLe, -⟩)
      · omega
      · exact absurd hLe hUps

/-- The way back leads to the path exactly if it goes up as far as the way there did. -/
theorem take_append_eq_iff {shared left right above : List String}
    (hApart : ∀ s ∈ left.head?, s ∉ right.head?) (hLength : above.length ≤ left.length) :
    (shared ++ left).take ((shared ++ left).length - (partWays above right).1.length) ++
        (partWays above right).2 = shared ++ right ↔
      (partWays above right).1.length = left.length := by
  have hBound := length_partWays_le above right
  constructor
  · intro hSame
    by_contra hShort
    cases left with
    | nil =>
      rw [List.length_nil] at hLength hShort
      omega
    | cons l left =>
      -- The segment behind the shared ones has not been left on the way back.
      have hBack := congrArg (fun segments => segments[shared.length]?) hSame
      have hKept :
          shared.length < (shared ++ l :: left).length - (partWays above right).1.length := by
        rw [List.length_append]
        omega
      have hTaken : shared.length < ((shared ++ l :: left).take
          ((shared ++ l :: left).length - (partWays above right).1.length)).length := by
        rw [List.length_take]
        omega
      rw [List.getElem?_append_left hTaken, List.getElem?_take_of_lt hKept,
        List.getElem?_append_right (Nat.le_refl _), List.getElem?_append_right (Nat.le_refl _),
        Nat.sub_self, ← List.head?_eq_getElem?, ← List.head?_eq_getElem?] at hBack
      exact hApart l rfl hBack.symm
  · intro hSame
    rw [partWays_of_length (by omega), List.length_append]
    have hAbove : above.length = left.length := by omega
    rw [hAbove, Nat.add_sub_cancel, List.take_left]

theorem carried_carried_iff (source target path : List String) :
    carried target source (carried source target path) = path ↔ Returns source target path := by
  obtain ⟨shared, hSource, hPath, hApart⟩ := exists_shared source path
  have hKept := length_partWays_drop_iff target (partWays source path).2
    (partWays source path).1.length
  have hEmpty : (partWays source path).1.length = 0 ↔ (partWays source path).1 = [] :=
    List.length_eq_zero_iff
  rw [Returns, ← hEmpty, ← hKept, carried, carried]
  generalize partWays source path = apart at hSource hPath hApart ⊢
  have hLength : (target.drop (target.length - apart.1.length)).length ≤ apart.1.length := by
    rw [List.length_drop]
    omega
  -- The way back parts from `target` where the steps up have led to.
  have hBack : partWays target (target.take (target.length - apart.1.length) ++ apart.2) =
      partWays (target.drop (target.length - apart.1.length)) apart.2 := by
    have h := partWays_append (target.take (target.length - apart.1.length))
      (target.drop (target.length - apart.1.length)) apart.2
    rwa [List.take_append_drop] at h
  rw [hBack, hSource, hPath]
  exact take_append_eq_iff hApart hLength

theorem partWays_of_below {source path : List String} (hBelow : source <+: path) :
    (partWays source path).1 = [] := by
  obtain ⟨rest, rfl⟩ := hBelow
  have h := partWays_append source [] rest
  rw [List.append_nil] at h
  rw [h, partWays_nil]

theorem prefix_carried {source path : List String} (hBelow : source <+: path)
    (target : List String) : target <+: carried source target path := by
  rw [carried, partWays_of_below hBelow, List.length_nil, Nat.sub_zero, List.take_length]
  exact List.prefix_append _ _

theorem mem_carried {source target path : List String} {s : String}
    (hs : s ∈ carried source target path) : s ∈ target ∨ s ∈ path := by
  rcases List.mem_append.1 hs with hTarget | hRest
  · exact Or.inl (List.mem_of_mem_take hTarget)
  · exact Or.inr (mem_of_mem_partWays hRest)

end Path

/-! ## Canonical paths -/

namespace Layout

open Canonicalizer

variable {l : Layout} {source target p : CanonicalPath}

theorem relative_eq (hRoot : source.root = p.root) :
    relative source.text p.text = joined (climb source.segments p.segments) := by
  have hSame : ¬(parts source.text).root ≠ (parts p.text).root := fun h => h hRoot
  rw [relative]
  simp only [hSame, if_false, Parts.text]
  exact String.empty_append

/-- Whatever is carried over is canonical, and has the root of the other tree. -/
theorem canonical_reanchor (hTarget : l.canonicalizer.Canonical target) (path : String) :
    l.canonicalizer.Canonical (l.reanchor source target path) :=
  hTarget.canonical_join _

theorem root_reanchor (hTarget : l.canonicalizer.Canonical target) (path : String) :
    (l.reanchor source target path).root = target.root :=
  hTarget.root_join _

/-- Where a path with the root of its tree is carried to. -/
theorem reanchor_eq (hTarget : l.canonicalizer.Canonical target)
    (hp : l.canonicalizer.Canonical p) (hRoot : source.root = p.root) :
    l.reanchor source target p.text =
      CanonicalPath.of target.root (carried source.segments target.segments p.segments) := by
  have hRest : ∀ s ∈ (partWays source.segments p.segments).2, s ∈ p.segments :=
    fun s hs => mem_of_mem_partWays hs
  have hClimb : ∀ s ∈ climb source.segments p.segments, '/' ∉ s.toList ∧ '\\' ∉ s.toList := by
    intro s hs
    rw [climb_eq] at hs
    rcases List.mem_append.1 hs with hUp | hDown
    · rw [List.eq_of_mem_replicate hUp]
      decide
    · exact ⟨(hp.plain s (hRest s hDown)).no_slash, (hp.plain s (hRest s hDown)).no_backslash⟩
  have hFolded : ∀ s ∈ carried source.segments target.segments p.segments,
      l.canonicalizer.fold s = s := by
    intro s hs
    rcases mem_carried hs with hMem | hMem
    · exact hTarget.segments_folded s hMem
    · exact hp.segments_folded s hMem
  have hSlashes : slashes (joined (climb source.segments p.segments)) =
      joined (climb source.segments p.segments) :=
    slashes_eq_self (not_mem_joined (by decide) fun s hs => (hClimb s hs).2)
  rw [reanchor, canonicalize, canonicalize, hp.canonicalize_text, relative_eq hRoot,
    hTarget.canonicalize_join, hSlashes, resolveDots_append_pieces fun s hs => (hClimb s hs).1,
    climb_eq, resolveDots_climb hTarget.plain fun s hs => hp.plain s (hRest s hs)]
  exact congrArg _ ((List.map_congr_left hFolded).trans (List.map_id' _))

theorem segments_reanchor (hTarget : l.canonicalizer.Canonical target)
    (hp : l.canonicalizer.Canonical p) (hRoot : source.root = p.root) :
    (l.reanchor source target p.text).segments =
      carried source.segments target.segments p.segments := by
  rw [reanchor_eq hTarget hp hRoot]
  refine CanonicalPath.segments_of hTarget.isRoot fun s hs => ?_
  rcases mem_carried hs with hMem | hMem
  · exact hTarget.plain s hMem
  · exact hp.plain s hMem

/-- A path comes back exactly if it has the root of its tree and its segments come back. -/
theorem reanchor_reanchor_iff (hSource : l.canonicalizer.Canonical source)
    (hTarget : l.canonicalizer.Canonical target) (hp : l.canonicalizer.Canonical p) :
    l.reanchor target source (l.reanchor source target p.text).text = p ↔
      p.root = source.root ∧ Returns source.segments target.segments p.segments := by
  let q := l.reanchor source target p.text
  have hThere : l.canonicalizer.Canonical q := canonical_reanchor hTarget p.text
  have hThereRoot : q.root = target.root := root_reanchor hTarget p.text
  have hBack : l.canonicalizer.Canonical (l.reanchor target source q.text) :=
    canonical_reanchor hSource q.text
  have hBackRoot : (l.reanchor target source q.text).root = source.root :=
    root_reanchor hSource q.text
  by_cases hRoot : p.root = source.root
  · have hSegments := segments_reanchor hSource hThere hThereRoot.symm
    rw [segments_reanchor hTarget hp hRoot.symm] at hSegments
    rw [← carried_carried_iff, ← hSegments]
    constructor
    · intro h
      exact ⟨hRoot, congrArg CanonicalPath.segments h⟩
    · intro h
      exact Canonical.ext hBack hp (hBackRoot.trans hRoot.symm) h.2
  · constructor
    · intro h
      exact absurd ((congrArg CanonicalPath.root h).symm.trans hBackRoot) hRoot
    · intro h
      exact absurd h.1 hRoot

/-! ## The two trees -/

/-- The canonical paths at and below a directory. -/
def below (l : Layout) (directory : CanonicalPath) : Set CanonicalPath :=
  { p | (∃ path, l.canonicalize path = p) ∧ p.root = directory.root ∧
      directory.segments <+: p.segments }

theorem mapsTo_reanchor (hCurrent : l.canonicalizer.Anchored)
    (hTarget : l.canonicalizer.Canonical target) :
    Set.MapsTo (fun p => l.reanchor source target p.text) (l.below source) (l.below target) := by
  rintro p ⟨hPath, hRoot, hBelow⟩
  have hp : l.canonicalizer.Canonical p := (canonical_iff hCurrent).2 hPath
  refine ⟨⟨_, rfl⟩, root_reanchor hTarget _, ?_⟩
  dsimp only
  rw [segments_reanchor hTarget hp hRoot.symm]
  exact prefix_carried hBelow _

theorem leftInvOn_reanchor (hCurrent : l.canonicalizer.Anchored)
    (hSource : l.canonicalizer.Canonical source) (hTarget : l.canonicalizer.Canonical target) :
    Set.LeftInvOn (fun p => l.reanchor target source p.text)
      (fun p => l.reanchor source target p.text) (l.below source) := by
  rintro p ⟨hPath, hRoot, hBelow⟩
  have hp : l.canonicalizer.Canonical p := (canonical_iff hCurrent).2 hPath
  exact (reanchor_reanchor_iff hSource hTarget hp).2
    ⟨hRoot, Or.inl (partWays_of_below hBelow)⟩

/-- **The round trips of a layout.** A source comes back from the output tree, and an emitted
file from the source tree, exactly under the condition `Returns`.  Below the two roots the two ways
are inverse to each other, one to one and onto. -/
theorem toSource_toOutput_iff {workingDirectory : String}
    (hDir : isAbsolute (slashes workingDirectory) = true) (directory : String)
    (caseSensitive : Bool) (sourceRoot outputRoot : String) :
    let l := Layout.of (Canonicalizer.of workingDirectory directory caseSensitive)
      sourceRoot outputRoot
    (∀ path, let p := l.canonicalize path
      (l.toSource (l.toOutput p.text).text = p ↔
        p.root = l.sourceRoot.root ∧
          Returns l.sourceRoot.segments l.outputRoot.segments p.segments) ∧
      (l.toOutput (l.toSource p.text).text = p ↔
        p.root = l.outputRoot.root ∧
          Returns l.outputRoot.segments l.sourceRoot.segments p.segments)) ∧
    Set.InvOn (fun p => l.toSource p.text) (fun p => l.toOutput p.text)
      (l.below l.sourceRoot) (l.below l.outputRoot) ∧
    Set.BijOn (fun p => l.toOutput p.text) (l.below l.sourceRoot) (l.below l.outputRoot) ∧
    Set.BijOn (fun p => l.toSource p.text) (l.below l.outputRoot) (l.below l.sourceRoot) := by
  intro l
  have hCurrent : l.canonicalizer.Anchored := anchored_of hDir directory caseSensitive
  have hSource : l.canonicalizer.Canonical l.sourceRoot :=
    canonical_canonicalize hCurrent sourceRoot
  have hOutput : l.canonicalizer.Canonical l.outputRoot :=
    canonical_canonicalize hCurrent outputRoot
  have hInv : Set.InvOn (fun p => l.toSource p.text) (fun p => l.toOutput p.text)
      (l.below l.sourceRoot) (l.below l.outputRoot) :=
    ⟨leftInvOn_reanchor hCurrent hSource hOutput, leftInvOn_reanchor hCurrent hOutput hSource⟩
  refine ⟨?_, hInv, ?_, ?_⟩
  · intro path p
    have hp : l.canonicalizer.Canonical p := canonical_canonicalize hCurrent path
    exact ⟨reanchor_reanchor_iff hSource hOutput hp, reanchor_reanchor_iff hOutput hSource hp⟩
  · exact hInv.bijOn (mapsTo_reanchor hCurrent hOutput) (mapsTo_reanchor hCurrent hSource)
  · exact hInv.symm.bijOn (mapsTo_reanchor hCurrent hSource) (mapsTo_reanchor hCurrent hOutput)

/-- With `src` and `dist` side by side, a source comes back from the output tree, while an emitted
file that is taken for a source does not. -/
theorem toSource_toOutput_side_by_side :
    isAbsolute (slashes "/work") = true ∧
    let l := Layout.of (Canonicalizer.of "/work" "." false) "Src" "dist"
    l.toSource (l.toOutput (l.canonicalize "src/App.ts").text).text =
        l.canonicalize "src/App.ts" ∧
      l.toSource (l.toOutput (l.canonicalize "dist/App.js").text).text ≠
        l.canonicalize "dist/App.js" := by
  have hDir : isAbsolute (slashes "/work") = true := by decide
  have h := (toSource_toOutput_iff hDir "." false "Src" "dist").1
  refine ⟨hDir, (h "src/App.ts").1.2 ?_, mt (h "dist/App.js").1.1 ?_⟩
  · decide +kernel
  · decide +kernel

end Layout

end CompileHost
