import CompileHost.Proofs.Path.Folding

/-!
# Normal forms of joined paths

A path may be brought into its form before something is joined to it, or afterwards.  The dots of
what is joined then meet segments of which the dots have been resolved already, and which may have
been folded; neither makes a difference.

* `resolveDots_resolveDots_append`: dots are resolved from the left, in as many runs as one likes.
* `exists_slashes_join`: the segments of what is joined stand behind those of a path with a root,
  whatever the path ends in.
* `normal_forms_join`: both forms of a joined path.
-/

namespace CompileHost

open CompileHost.Path

namespace Path

variable {root base path : String} {segments : List String}

/-! ## Dots behind dots -/

theorem resolveDots_insert_empty (rooted : Bool) (above below : List String) :
    resolveDots rooted (above ++ "" :: below) = resolveDots rooted (above ++ below) := by
  rw [← resolveDots_append_filter, ← resolveDots_append_filter rooted above below]
  rfl

/-- What has been resolved to plain segments need not be resolved again. -/
theorem resolveDots_resolveDots_append (hPlain : ∀ s ∈ resolveDots true segments, Plain s)
    (rest : List String) :
    resolveDots true (resolveDots true segments ++ rest) = resolveDots true (segments ++ rest) := by
  have hWalked : (resolveDots true segments).reverse = segments.foldl (pushSegment true) [] := by
    rw [resolveDots, List.reverse_reverse]
  rw [resolveDots, List.foldl_append, foldl_pushSegment_plain hPlain, List.append_nil, hWalked,
    ← List.foldl_append]
  rfl

/-! ## What is joined -/

/-- A slash at the end of a text parts it from what follows. -/
theorem resolveDots_pieces_append (hEnds : base = "" ∨ endsWithSlash base = true)
    (rooted : Bool) (rest : String) :
    resolveDots rooted (pieces (base ++ rest)) =
      resolveDots rooted (pieces base ++ pieces rest) := by
  rcases hEnds with rfl | hEnds
  · rw [String.empty_append, pieces_empty]
    exact (resolveDots_insert_empty rooted [] (pieces rest)).symm
  · obtain ⟨front, hFront⟩ := List.getLast?_eq_some_iff.1 (of_decide_eq_true hEnds)
    have hBase : base = String.ofList front ++ "/" := by
      apply String.toList_inj.1
      rw [hFront]
      simp
    have hPieces : pieces base = pieces (String.ofList front) ++ [""] := by
      rw [← pieces_empty, ← pieces_append_slash, String.append_empty, hBase]
    rw [hPieces, List.append_assoc, List.singleton_append, resolveDots_insert_empty, hBase,
      pieces_append_slash]

theorem endsWithSlash_slashes (hEnds : endsWithSlash path = true) :
    endsWithSlash (slashes path) = true := by
  have hLast : path.toList.getLast? = some '/' := of_decide_eq_true hEnds
  rw [endsWithSlash, slashes, String.toList_ofList, List.getLast?_map, hLast]
  rfl

theorem endsWithSlash_append (hSome : base ≠ "") (front : String) :
    endsWithSlash (front ++ base) = endsWithSlash base := by
  have hLetters : base.toList ≠ [] := fun h => hSome (String.toList_inj.1 h)
  rw [endsWithSlash, endsWithSlash, String.toList_append, List.getLast?_append,
    List.getLast?_eq_some_getLast hLetters, Option.some_or]

/-- What is joined to a path with a root stands behind its segments. -/
theorem exists_slashes_join (hPath : slashes path = root ++ base) (rest : String) :
    ∃ whole, slashes (join path rest) = root ++ whole ∧
      resolveDots true (pieces whole) =
        resolveDots true (pieces base ++ pieces (slashes rest)) := by
  unfold join
  by_cases hRest : rest = ""
  · subst hRest
    refine ⟨base, by rw [if_pos rfl, hPath], ?_⟩
    exact (resolveDots_append_empty true (pieces base)).symm
  · rw [if_neg hRest]
    by_cases hEnds : endsWithSlash path = true
    · refine ⟨base ++ slashes rest, ?_, resolveDots_pieces_append ?_ true _⟩
      · rw [if_pos hEnds, slashes_append, hPath, String.append_assoc]
      · by_cases hBase : base = ""
        · exact Or.inl hBase
        · right
          rw [← endsWithSlash_append hBase root, ← hPath]
          exact endsWithSlash_slashes hEnds
    · refine ⟨base ++ "/" ++ slashes rest, ?_, by rw [pieces_append_slash]⟩
      rw [if_neg hEnds, slashes_append, slashes_append, hPath]
      simp only [String.append_assoc]
      rfl

theorem plain_resolveDots_append (hPlain : ∀ s ∈ segments, Plain s) (rest : String) :
    ∀ s ∈ resolveDots true (segments ++ pieces (slashes rest)), Plain s := by
  apply plain_resolveDots
  · intro s hs
    rcases List.mem_append.1 hs with hHere | hBehind
    · exact (hPlain s hHere).no_slash
    · exact slash_not_mem_of_mem_pieces hBehind
  · intro s hs
    rcases List.mem_append.1 hs with hHere | hBehind
    · exact (hPlain s hHere).no_backslash
    · exact not_mem_of_mem_pieces (not_mem_slashes rest) hBehind

/-! ## Normal forms -/

theorem normalize_of_slashes (hRoot : IsRoot root) (hPath : slashes path = root ++ base) :
    normalize path = Parts.text ⟨root, resolveDots true (pieces base)⟩ := by
  have hSlashes : slashes (root ++ base) = root ++ base := by
    rw [← hPath, slashes_slashes]
  have hSame : normalize path = normalize (slashes path) := by
    rw [normalize, normalize, slashes_slashes]
  rw [hSame, hPath, normalize_append hRoot hSlashes]

/-- The normal form of what is joined to a normal path. -/
theorem normalize_join_text (hRoot : IsRoot root) (hPlain : ∀ s ∈ segments, Plain s)
    (rest : String) :
    normalize (join (Parts.text ⟨root, segments⟩) rest) =
      Parts.text ⟨root, resolveDots true (segments ++ pieces (slashes rest))⟩ := by
  obtain ⟨whole, hWhole, hDots⟩ := exists_join_eq hRoot hPlain (slashes rest)
  rw [← slashes_join (backslash_not_mem_text hRoot hPlain)] at hWhole
  rw [normalize_of_slashes hRoot hWhole, hDots]

theorem normalize_join_normalize (hAbs : isAbsolute (slashes path) = true) (rest : String) :
    normalize (join (normalize path) rest) = normalize (join path rest) := by
  obtain ⟨root, base, hRoot, hPath⟩ := exists_root_of_isAbsolute hAbs
  obtain ⟨whole, hWhole, hDots⟩ := exists_slashes_join hPath rest
  have hPlain : ∀ s ∈ resolveDots true (pieces base), Plain s :=
    Canonicalizer.plain_pieces_of_slashes hPath
  rw [normalize_of_slashes hRoot hPath, normalize_join_text hRoot hPlain,
    resolveDots_resolveDots_append hPlain, ← hDots, ← normalize_of_slashes hRoot hWhole]

end Path

namespace Canonicalizer

variable {c : Canonicalizer} {path : String}

/-! ## Canonical forms -/

theorem resolveDots_map_fold (c : Canonicalizer) (rooted : Bool) (segments : List String) :
    resolveDots rooted (segments.map c.fold) = (resolveDots rooted segments).map c.fold := by
  cases hCase : c.caseSensitive with
  | true =>
    have hFold : c.fold = id := funext (fold_of_caseSensitive hCase)
    rw [hFold, List.map_id, List.map_id]
  | false =>
    have hFold : c.fold = Text.lower := funext (fold_of_not_caseSensitive hCase)
    rw [hFold, resolveDots_map_lower]

/-- Segments in front may be folded before dots are resolved. -/
theorem map_fold_resolveDots_append (c : Canonicalizer) (rooted : Bool)
    (segments rest : List String) :
    (resolveDots rooted (segments.map c.fold ++ rest)).map c.fold =
      (resolveDots rooted (segments ++ rest)).map c.fold := by
  have hTwice : (segments.map c.fold).map c.fold = segments.map c.fold := by
    rw [List.map_map]
    exact List.map_congr_left fun s _ => c.fold_fold s
  rw [← resolveDots_map_fold, ← resolveDots_map_fold, List.map_append, List.map_append, hTwice]

theorem canonicalize_join_canonicalize (hAbs : isAbsolute (slashes path) = true) (rest : String) :
    c.canonicalize (join (c.canonicalize path).text rest) = c.canonicalize (join path rest) := by
  obtain ⟨root, base, hRoot, hPath⟩ := exists_root_of_isAbsolute hAbs
  obtain ⟨whole, hWhole, hDots⟩ := exists_slashes_join hPath rest
  have hPlain : ∀ s ∈ resolveDots true (pieces base), Plain s := plain_pieces_of_slashes hPath
  have hParts := canonicalize_of_slashes (c := c) hRoot hPath
  rw [(canonical_of_slashes hRoot hPath).canonicalize_join, hParts,
    CanonicalPath.root_of (isRoot_fold hRoot c) (plain_map_fold hPlain c),
    CanonicalPath.segments_of (isRoot_fold hRoot c) (plain_map_fold hPlain c),
    map_fold_resolveDots_append, resolveDots_resolveDots_append hPlain, ← hDots,
    ← canonicalize_of_slashes hRoot hWhole]

/-- **Forms in two steps.**  For a path with a root, it does not matter whether it is brought into
canonical form, or into normal form, before something is joined to it. -/
theorem normal_forms_join (c : Canonicalizer) {path : String}
    (hAbs : isAbsolute (slashes path) = true) (rest : String) :
    c.canonicalize (join (c.canonicalize path).text rest) = c.canonicalize (join path rest) ∧
      normalize (join (normalize path) rest) = normalize (join path rest) :=
  ⟨canonicalize_join_canonicalize hAbs rest, normalize_join_normalize hAbs rest⟩

/-- A way that leads back beyond the root of a drive, and a backslash that the path ends in. -/
theorem normal_forms_join_beyond_root :
    let c := Canonicalizer.of "/work" "." false
    isAbsolute (slashes "D:\\ΟΔΟΣ\\.\\") = true ∧
      c.canonicalize (join (c.canonicalize "D:\\ΟΔΟΣ\\.\\").text "../..\\/A.ts") =
        c.canonicalize (join "D:\\ΟΔΟΣ\\.\\" "../..\\/A.ts") ∧
      normalize (join (normalize "D:\\ΟΔΟΣ\\.\\") "../..\\/A.ts") = "D:/A.ts" := by
  intro c
  have hAbs : isAbsolute (slashes "D:\\ΟΔΟΣ\\.\\") = true := by decide
  have h := normal_forms_join c hAbs "../..\\/A.ts"
  refine ⟨hAbs, h.1, h.2.trans ?_⟩
  decide +kernel

end Canonicalizer

end CompileHost
