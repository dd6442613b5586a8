import CompileHost.Path.Dependency
import CompileHost.Proofs.Path.NormalForm
import CompileHost.Proofs.Text.Cutting
import CompileHost.Proofs.Text.Places
import Mathlib.Data.List.Induction

/-!
# Dependencies by their segments

The scan for `/node_modules/` takes both slashes of the mark, and so it passes over a mark that
begins with the slash in which the one before ends.  It misses nothing by that: what stands behind
the mark before is `node_modules` then, and not `typescript`, and the answer is known already.

* `inDependency_mark_iff`, `marks_trail_mark_iff`: what a mark says, of segments and of the scan.
* `marks_trail_iff`: the scan of a text that is made of segments.
* `isDependencyModule_iff_segments`: the answer for a canonical path.
-/

namespace CompileHost.Path

open Text

variable {cs word : List Char} {segments : List String} {s t : String}

/-! ## Segments -/

/-- What is said of the segments of a file of a dependency: one of them, and not the last, is
`node_modules`, and what follows it is not a directory `typescript`. -/
def InDependency (segments : List String) : Prop :=
  ∃ i, i + 1 < segments.length ∧ segments[i]? = some "node_modules" ∧
    ¬ (segments[i + 1]? = some "typescript" ∧ i + 2 < segments.length)

theorem not_inDependency_nil : ¬ InDependency [] := by
  rintro ⟨i, hLess, -⟩
  exact Nat.not_lt_zero _ hLess

theorem InDependency.cons (h : InDependency segments) (s : String) :
    InDependency (s :: segments) := by
  obtain ⟨i, hLess, hMark, hOther⟩ := h
  exact ⟨i + 1, Nat.succ_lt_succ hLess, hMark, fun h => hOther ⟨h.1, Nat.lt_of_succ_lt_succ h.2⟩⟩

theorem inDependency_cons_iff_of_not_mark (hNone : ¬ (s = "node_modules" ∧ segments ≠ [])) :
    InDependency (s :: segments) ↔ InDependency segments := by
  refine ⟨?_, fun h => h.cons s⟩
  rintro ⟨i, hLess, hMark, hOther⟩
  cases i with
  | zero =>
    refine absurd ⟨Option.some.inj hMark, ?_⟩ hNone
    exact List.length_pos_iff.1 (Nat.lt_of_succ_lt_succ hLess)
  | succ i =>
    exact ⟨i, Nat.lt_of_succ_lt_succ hLess, hMark, fun h => hOther ⟨h.1, Nat.succ_lt_succ h.2⟩⟩

/-- A mark decides, unless a directory `typescript` follows; that is no mark itself. -/
theorem inDependency_mark_iff (t : String) (segments : List String) :
    InDependency ("node_modules" :: t :: segments) ↔
      ¬ (t = "typescript" ∧ segments ≠ []) ∨ InDependency segments := by
  constructor
  · rintro ⟨i, hLess, hMark, hOther⟩
    by_cases hPackage : t = "typescript" ∧ segments ≠ []
    · obtain ⟨rfl, hSome⟩ := hPackage
      right
      cases i with
      | zero =>
        refine absurd ⟨rfl, ?_⟩ hOther
        exact Nat.succ_lt_succ (Nat.succ_lt_succ (List.length_pos_iff.2 hSome))
      | succ i =>
        refine (inDependency_cons_iff_of_not_mark fun h => absurd h.1 (by decide)).1
          ⟨i, Nat.lt_of_succ_lt_succ hLess, hMark, fun h => hOther ⟨h.1, Nat.succ_lt_succ h.2⟩⟩
    · exact Or.inl hPackage
  · rintro (hPackage | hLater)
    · refine ⟨0, Nat.succ_lt_succ (Nat.succ_pos _), rfl, fun h => hPackage ?_⟩
      refine ⟨Option.some.inj h.1, List.length_pos_iff.1 ?_⟩
      exact Nat.lt_of_succ_lt_succ (Nat.lt_of_succ_lt_succ h.2)
    · exact (hLater.cons t).cons _

/-! ## The scan -/

/-- Whether a scan finds a mark that is not followed by `typescript/`. -/
def marks (cs : List Char) : Bool :=
  (cut belowMark cs).any fun
    | .inl _ => false
    | .inr rest => !startsWith rest "typescript/".toList

theorem isDependencyModule_eq (path : String) : isDependencyModule path = marks path.toList := rfl

theorem blind_belowMark : Blind belowMark := fun _ _ _ => rfl

theorem belowMark_of_absent (before : Option Char) (hNone : ¬ dependencyMark <+: cs) :
    belowMark before cs = none := by
  rw [belowMark, Option.map_eq_none_iff, Option.eq_none_iff_forall_ne_some]
  exact fun rest hRest => hNone ⟨rest, (stripStart?_eq_some_iff.1 hRest).symm⟩

theorem marks_cons_of_not_mark {c : Char} (hNone : ¬ dependencyMark <+: c :: cs) :
    marks (c :: cs) = marks cs := by
  rw [marks, cut, cutAfter_of_none (belowMark_of_absent none hNone), List.any_cons,
    blind_belowMark.cutAfter_eq]
  rfl

/-- Behind a mark the scan goes on with the text below it. -/
theorem marks_mark_append (rest : List Char) :
    marks (dependencyMark ++ rest) = (!startsWith rest "typescript/".toList || marks rest) := by
  have hSplit : dependencyMark ++ rest = "/node_modules".toList ++ '/' :: rest := by
    rw [List.append_cons]
    rfl
  have hFound : belowMark none ("/node_modules".toList ++ '/' :: rest) =
      some (rest, "/node_modules".toList.length + 1) := by
    rw [belowMark, stripStart?_eq_some_iff.2 hSplit.symm]
    rfl
  rw [hSplit, marks, cut, cutAfter_of_found hFound, List.any_cons, blind_belowMark.cutAfter_eq]
  rfl

theorem marks_append_of_no_slash (hSlash : '/' ∉ cs) (rest : List Char) :
    marks (cs ++ rest) = marks rest := by
  induction cs with
  | nil => rfl
  | cons c cs ih =>
    rw [List.mem_cons, not_or] at hSlash
    have hNone : ¬ dependencyMark <+: c :: (cs ++ rest) :=
      fun hMark => hSlash.1 (List.cons_prefix_cons.1 hMark).1
    rw [List.cons_append, marks_cons_of_not_mark hNone, ih hSlash.2]

/-! ## The scan of segments -/

/-- The text that leads below a directory: segments, with a slash in front of each. -/
def trail (segments : List String) : List Char :=
  segments.flatMap fun s => '/' :: s.toList

theorem trail_cons (s : String) (segments : List String) :
    trail (s :: segments) = '/' :: (s.toList ++ trail segments) := rfl

/-- A word and a slash are found in front of segments only as a name that is not the last. -/
theorem prefix_append_trail_iff (hWord : '/' ∉ word) (hName : '/' ∉ cs)
    (segments : List String) :
    word ++ ['/'] <+: cs ++ trail segments ↔ cs = word ∧ segments ≠ [] := by
  cases segments with
  | nil =>
    refine iff_of_false (fun h => ?_) fun h => h.2 rfl
    rw [trail, List.flatMap_nil, List.append_nil] at h
    exact hName (h.subset (List.mem_append_right _ List.mem_cons_self))
  | cons s segments =>
    rw [trail_cons, and_iff_left (List.cons_ne_nil s segments)]
    constructor
    · rintro ⟨rest, hText⟩
      rw [List.append_assoc, List.singleton_append, append_cons_inj_of_first hWord hName] at hText
      exact hText.1.symm
    · rintro rfl
      exact ⟨s.toList ++ trail segments, by simp⟩

theorem marks_trail_cons_of_not_mark (hSlash : '/' ∉ s.toList)
    (hNone : ¬ (s = "node_modules" ∧ segments ≠ [])) :
    marks (trail (s :: segments)) = marks (trail segments) := by
  have hMark : ¬ dependencyMark <+: '/' :: (s.toList ++ trail segments) := by
    intro h
    have hName : "node_modules".toList ++ ['/'] <+: s.toList ++ trail segments :=
      (List.cons_prefix_cons.1 h).2
    rw [prefix_append_trail_iff (by decide) hSlash, String.toList_inj] at hName
    exact hNone hName
  rw [trail_cons, marks_cons_of_not_mark hMark, marks_append_of_no_slash hSlash]

/-- The scan of what stands behind a mark, but for the segment that shares a slash with it. -/
theorem marks_trail_mark_iff (hSlash : '/' ∉ t.toList) (segments : List String) :
    marks (trail ("node_modules" :: t :: segments)) = true ↔
      ¬ (t = "typescript" ∧ segments ≠ []) ∨ marks (trail segments) = true := by
  have hText : trail ("node_modules" :: t :: segments) =
      dependencyMark ++ (t.toList ++ trail segments) := rfl
  have hPackage : startsWith (t.toList ++ trail segments) "typescript/".toList = true ↔
      t = "typescript" ∧ segments ≠ [] := by
    rw [startsWith_iff, show "typescript/".toList = "typescript".toList ++ ['/'] from rfl,
      prefix_append_trail_iff (by decide) hSlash, String.toList_inj]
  rw [hText, marks_mark_append, marks_append_of_no_slash hSlash, Bool.or_eq_true,
    Bool.not_eq_true', ← Bool.not_eq_true, hPackage]

theorem marks_trail_iff (hSlash : ∀ s ∈ segments, '/' ∉ s.toList) :
    marks (trail segments) = true ↔ InDependency segments := by
  -- a mark takes two segments at once
  induction segments using List.twoStepInduction with
  | nil => exact iff_of_false (by decide) not_inDependency_nil
  | singleton s =>
    have hNone : ¬ (s = "node_modules" ∧ ([] : List String) ≠ []) := fun h => h.2 rfl
    rw [marks_trail_cons_of_not_mark (hSlash s List.mem_cons_self) hNone,
      inDependency_cons_iff_of_not_mark hNone]
    exact iff_of_false (by decide) not_inDependency_nil
  | cons_cons s t segments ih ihNext =>
    have hNext : ∀ u ∈ t :: segments, '/' ∉ u.toList :=
      fun u hu => hSlash u (List.mem_cons_of_mem _ hu)
    by_cases hMark : s = "node_modules"
    · subst hMark
      rw [marks_trail_mark_iff (hNext t List.mem_cons_self), inDependency_mark_iff,
        ih fun u hu => hNext u (List.mem_cons_of_mem _ hu)]
    · have hNone : ¬ (s = "node_modules" ∧ t :: segments ≠ []) := fun h => hMark h.1
      rw [marks_trail_cons_of_not_mark (hSlash s List.mem_cons_self) hNone,
        inDependency_cons_iff_of_not_mark hNone, ihNext t hNext]

/-! ## Canonical paths -/

theorem trail_eq (hSome : segments ≠ []) : trail segments = '/' :: (joined segments).toList := by
  induction segments with
  | nil => exact absurd rfl hSome
  | cons s segments ih =>
    rw [trail_cons]
    by_cases hRest : segments = []
    · subst hRest
      simp [trail, joined, joinWith]
    · rw [ih hRest, joined_cons s hRest]
      simp

/-- A root ends in a slash, and has no other. -/
theorem IsRoot.exists_front {root : String} (hRoot : IsRoot root) :
    ∃ front, '/' ∉ front ∧ root.toList = front ++ ['/'] := by
  rcases hRoot with rfl | ⟨letter, hLetter, rfl⟩
  · exact ⟨[], List.not_mem_nil, rfl⟩
  · refine ⟨[letter, ':'], ?_, String.toList_ofList⟩
    have hSlash : '/' ≠ letter := by
      rintro rfl
      exact absurd hLetter (by decide)
    simp [hSlash]

theorem isDependencyModule_text_iff {root : String} (hRoot : IsRoot root)
    (hPlain : ∀ s ∈ segments, Plain s) :
    isDependencyModule (Parts.text ⟨root, segments⟩) = true ↔ InDependency segments := by
  obtain ⟨front, hFront, hText⟩ := hRoot.exists_front
  rw [isDependencyModule_eq, text_eq, String.toList_append, hText, List.append_assoc,
    List.singleton_append, marks_append_of_no_slash hFront]
  by_cases hSome : segments = []
  · subst hSome
    exact iff_of_false (by decide) not_inDependency_nil
  · rw [← trail_eq hSome, marks_trail_iff fun s hs => (hPlain s hs).no_slash]

/-- **Dependencies.**  A canonical path belongs to a dependency exactly if its segments say so, no
matter how often `node_modules` and `typescript` stand in it, and in which order. -/
theorem isDependencyModule_iff_segments {workingDirectory : String}
    (hDir : isAbsolute (slashes workingDirectory) = true) (directory : String)
    (caseSensitive : Bool) (path : String) :
    let p := (Canonicalizer.of workingDirectory directory caseSensitive).canonicalize path
    isDependencyModule p.text = true ↔ InDependency p.segments := by
  intro p
  have hc := Canonicalizer.anchored_of hDir directory caseSensitive
  have hp := Canonicalizer.canonical_canonicalize hc path
  rw [hp.text_eq]
  exact isDependencyModule_text_iff hp.isRoot hp.plain

/-- Two marks that share a slash; the second is passed over. -/
theorem isDependencyModule_shared_slash :
    isAbsolute (slashes "/work") = true ∧
    let p := (Canonicalizer.of "/work" "." true).canonicalize "node_modules/node_modules/typescript"
    isDependencyModule p.text = true ∧ InDependency p.segments := by
  have hDir : isAbsolute (slashes "/work") = true := by decide
  have h := isDependencyModule_iff_segments hDir "." true "node_modules/node_modules/typescript"
  refine ⟨hDir, ?_, h.1 ?_⟩
  · decide +kernel
  · decide +kernel

end CompileHost.Path
