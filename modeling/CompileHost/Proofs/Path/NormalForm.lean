import CompileHost.Path.Canonical
import CompileHost.Proofs.Path.Parts
import CompileHost.Proofs.Text.LowerCase

/-!
# The canonical form of a path

A canonical path is a root and plain segments, all of them folded, and is determined by them.  The
canonicalizer produces such paths and leaves them alone, provided that its own directory is one.

* `canonicalize_of_slashes`, `Canonical.canonicalize_join`: the root and the segments of a
  canonical form.
* `canonical_canonicalize`: every canonical form is canonical.
* `Canonical.canonicalize_text`: a canonical path is its own canonical form.
* `anchored_of`: the canonicalizer for a directory has a canonical directory.
-/

namespace CompileHost

open CompileHost.Path

/-! ## Folding -/

namespace Text

theorem lower_append_root {root : String} (hRoot : IsRoot root) (rest : String) :
    lower (root ++ rest) = lower root ++ lower rest := by
  obtain ⟨front, rfl⟩ : ∃ front, root = front ++ "/" := by
    rcases hRoot with rfl | ⟨letter, -, rfl⟩
    · exact ⟨"", rfl⟩
    · have hSplit : [letter, ':', '/'] = [letter, ':'] ++ ['/'] := rfl
      refine ⟨String.ofList [letter, ':'], ?_⟩
      rw [hSplit, String.ofList_append]
  have hFront := lower_append_slash front ""
  rw [String.append_empty, show lower "" = "" from rfl, String.append_empty] at hFront
  rw [lower_append_slash, hFront]

theorem isRoot_lower {root : String} (hRoot : IsRoot root) : IsRoot (lower root) := by
  rcases hRoot with rfl | ⟨letter, hLetter, rfl⟩
  · exact Or.inl ((lower_eq_iff_of_marks (by decide) "/").2 rfl)
  · have hAscii := toNat_lt_of_isAlpha hLetter
    have hLower : ∀ n < 0x80, (Char.ofNat n).isAlpha = true →
        (Char.ofNat n).toLower.isAlpha = true ∧ Char.ofNat n ≠ 'Σ' := by decide +kernel
    have h := hLower letter.toNat hAscii
    rw [Char.ofNat_toNat] at h
    refine Or.inr ⟨letter.toLower, (h hLetter).1, ?_⟩
    rw [lower, String.toList_ofList, lowerAfter_cons, lowerAt, if_neg (h hLetter).2, lowerChar,
      if_pos hAscii, lowerAfter_of_settled]
    · rfl
    · intro c hc
      refine settled_of_mark ?_
      rcases List.mem_cons.1 hc with rfl | hc
      · decide
      · rw [List.mem_singleton.1 hc]
        decide

theorem plain_lower {segment : String} (hPlain : Plain segment) : Plain (lower segment) where
  ne_empty := mt (lower_eq_iff_of_marks (by decide) segment).1 hPlain.ne_empty
  ne_dot := mt (lower_eq_iff_of_marks (by decide) segment).1 hPlain.ne_dot
  ne_up := mt (lower_eq_iff_of_marks (by decide) segment).1 hPlain.ne_up
  no_slash := mt (mem_lower_iff (by decide) segment).1 hPlain.no_slash
  no_backslash := mt (mem_lower_iff (by decide) segment).1 hPlain.no_backslash

end Text

namespace Path

theorem lower_joined (segments : List String) :
    Text.lower (joined segments) = joined (segments.map Text.lower) := by
  induction segments with
  | nil => rfl
  | cons s segments ih =>
    by_cases hSome : segments = []
    · subst hSome
      rw [joined_singleton, List.map_singleton, joined_singleton]
    · rw [joined_cons s hSome, Text.lower_append_slash, ih, List.map_cons,
        joined_cons _ (by simpa using hSome)]

theorem pieces_lower (text : String) : pieces (Text.lower text) = (pieces text).map Text.lower := by
  have hSlash : ∀ s ∈ (pieces text).map Text.lower, '/' ∉ s.toList := by
    intro s hs
    obtain ⟨piece, hPiece, rfl⟩ := List.mem_map.1 hs
    exact mt (Text.mem_lower_iff (by decide) piece).1 (slash_not_mem_of_mem_pieces hPiece)
  have hSome : (pieces text).map Text.lower ≠ [] := by
    simpa using pieces_ne_nil text
  calc pieces (Text.lower text)
      = pieces (Text.lower (joined (pieces text))) := by rw [joined_pieces]
    _ = (pieces text).map Text.lower := by rw [lower_joined, pieces_joined hSome hSlash]

end Path

namespace Canonicalizer

variable {c : Canonicalizer}

theorem fold_of_caseSensitive (hCase : c.caseSensitive = true) (text : String) :
    c.fold text = text := by
  simp [fold, hCase]

theorem fold_of_not_caseSensitive (hCase : c.caseSensitive = false) (text : String) :
    c.fold text = Text.lower text := by
  simp [fold, hCase]

theorem fold_fold (c : Canonicalizer) (text : String) : c.fold (c.fold text) = c.fold text := by
  unfold fold
  split
  · rfl
  · exact Text.lower_lower text

theorem isRoot_fold {root : String} (hRoot : IsRoot root) (c : Canonicalizer) :
    IsRoot (c.fold root) := by
  unfold fold
  split
  · exact hRoot
  · exact Text.isRoot_lower hRoot

theorem plain_fold {segment : String} (hPlain : Plain segment) (c : Canonicalizer) :
    Plain (c.fold segment) := by
  unfold fold
  split
  · exact hPlain
  · exact Text.plain_lower hPlain

theorem fold_text {root : String} (hRoot : IsRoot root) (segments : List String)
    (c : Canonicalizer) :
    c.fold (Parts.text ⟨root, segments⟩) = Parts.text ⟨c.fold root, segments.map c.fold⟩ := by
  by_cases hCase : c.caseSensitive = true
  · have hFold : c.fold = id := by
      funext text
      exact if_pos hCase
    rw [hFold, List.map_id]
    rfl
  · have hFold : c.fold = Text.lower := by
      funext text
      exact if_neg hCase
    rw [hFold, text_eq, text_eq, Text.lower_append_root hRoot, lower_joined]

end Canonicalizer

/-! ## The parts of a canonical path -/

namespace CanonicalPath

/-- The root of a path. -/
def root (p : CanonicalPath) : String :=
  (parts p.text).root

/-- The segments of a path. -/
def segments (p : CanonicalPath) : List String :=
  (parts p.text).segments.filter (· ≠ "")

/-- The path with a root and segments. -/
def of (root : String) (segments : List String) : CanonicalPath :=
  ⟨Parts.text ⟨root, segments⟩⟩

theorem root_of {root : String} {segments : List String} (hRoot : IsRoot root)
    (hPlain : ∀ s ∈ segments, Plain s) : (of root segments).root = root :=
  (parts_text hRoot hPlain).1

theorem segments_of {root : String} {segments : List String} (hRoot : IsRoot root)
    (hPlain : ∀ s ∈ segments, Plain s) : (of root segments).segments = segments :=
  (parts_text hRoot hPlain).2

end CanonicalPath

namespace Canonicalizer

variable {c : Canonicalizer} {p : CanonicalPath}

/-- A path that the canonicalizer leaves alone. -/
structure Canonical (c : Canonicalizer) (p : CanonicalPath) : Prop where
  isRoot : IsRoot p.root
  plain : ∀ s ∈ p.segments, Plain s
  root_folded : c.fold p.root = p.root
  segments_folded : ∀ s ∈ p.segments, c.fold s = s
  eq_of : p = CanonicalPath.of p.root p.segments

theorem canonical_of {root : String} {segments : List String} (hRoot : IsRoot root)
    (hPlain : ∀ s ∈ segments, Plain s) (hRootFolded : c.fold root = root)
    (hFolded : ∀ s ∈ segments, c.fold s = s) : c.Canonical (CanonicalPath.of root segments) := by
  have hR := CanonicalPath.root_of hRoot hPlain
  have hS := CanonicalPath.segments_of hRoot hPlain
  constructor
  · rwa [hR]
  · rwa [hS]
  · rwa [hR]
  · rwa [hS]
  · rw [hR, hS]

theorem plain_map_fold {segments : List String} (hPlain : ∀ s ∈ segments, Plain s)
    (c : Canonicalizer) : ∀ s ∈ segments.map c.fold, Plain s := by
  intro s hs
  obtain ⟨t, ht, rfl⟩ := List.mem_map.1 hs
  exact plain_fold (hPlain t ht) c

/-- Folding a normal path makes it canonical. -/
theorem canonical_fold {root : String} {segments : List String} (hRoot : IsRoot root)
    (hPlain : ∀ s ∈ segments, Plain s) :
    c.Canonical (CanonicalPath.of (c.fold root) (segments.map c.fold)) := by
  apply canonical_of (isRoot_fold hRoot c) (plain_map_fold hPlain c)
  · exact c.fold_fold root
  · intro s hs
    obtain ⟨t, -, rfl⟩ := List.mem_map.1 hs
    exact c.fold_fold t

/-- Two canonical paths are equal if their parts are. -/
theorem Canonical.ext {q : CanonicalPath} (hp : c.Canonical p) (hq : c.Canonical q)
    (hRoot : p.root = q.root) (hSegments : p.segments = q.segments) : p = q := by
  rw [hp.eq_of, hq.eq_of, hRoot, hSegments]

theorem Canonical.text_eq (hp : c.Canonical p) :
    p.text = Parts.text ⟨p.root, p.segments⟩ :=
  congrArg CanonicalPath.text hp.eq_of

theorem Canonical.backslash_not_mem (hp : c.Canonical p) : '\\' ∉ p.text.toList := by
  rw [hp.text_eq]
  exact backslash_not_mem_text hp.isRoot hp.plain

/-! ## Canonical forms -/

theorem canonicalize_of_isAbsolute {path : String} (hAbs : isAbsolute (slashes path) = true) :
    c.canonicalize path = ⟨c.fold (normalize (slashes path))⟩ := by
  rw [canonicalize]
  simp only [hAbs, if_true]

/-- The canonical form of an absolute path. -/
theorem canonicalize_of_slashes {path root rest : String} (hRoot : IsRoot root)
    (hPath : slashes path = root ++ rest) :
    c.canonicalize path =
      CanonicalPath.of (c.fold root) ((resolveDots true (pieces rest)).map c.fold) := by
  have hSlashes : slashes (root ++ rest) = root ++ rest := by
    rw [← hPath, slashes_slashes]
  have hAbs : isAbsolute (slashes path) = true := by
    rw [hPath]
    exact isAbsolute_append hRoot rest
  rw [canonicalize_of_isAbsolute hAbs, hPath, normalize_append hRoot hSlashes, fold_text hRoot]
  rfl

theorem plain_pieces_of_slashes {path root rest : String} (hPath : slashes path = root ++ rest) :
    ∀ s ∈ resolveDots true (pieces rest), Plain s := by
  refine plain_resolveDots (fun s hs => slash_not_mem_of_mem_pieces hs) fun s hs => ?_
  refine not_mem_of_mem_pieces (fun hMem => ?_) hs
  refine not_mem_slashes path ?_
  rw [hPath, String.toList_append]
  exact List.mem_append_right _ hMem

theorem canonical_of_slashes {path root rest : String} (hRoot : IsRoot root)
    (hPath : slashes path = root ++ rest) : c.Canonical (c.canonicalize path) := by
  rw [canonicalize_of_slashes hRoot hPath]
  exact canonical_fold hRoot (plain_pieces_of_slashes hPath)

theorem Canonical.exists_slashes_join (hp : c.Canonical p) (rest : String) :
    ∃ whole, slashes (join p.text rest) = p.root ++ whole ∧
      resolveDots true (pieces whole) =
        resolveDots true (p.segments ++ pieces (slashes rest)) := by
  obtain ⟨whole, hWhole, hDots⟩ := exists_join_eq hp.isRoot hp.plain (slashes rest)
  refine ⟨whole, ?_, hDots⟩
  rw [slashes_join hp.backslash_not_mem, hp.text_eq, hWhole]

/-- The canonical form of what is joined to a canonical path. -/
theorem Canonical.canonicalize_join (hp : c.Canonical p) (rest : String) :
    c.canonicalize (join p.text rest) =
      CanonicalPath.of p.root
        ((resolveDots true (p.segments ++ pieces (slashes rest))).map c.fold) := by
  obtain ⟨whole, hPath, hDots⟩ := hp.exists_slashes_join rest
  rw [canonicalize_of_slashes hp.isRoot hPath, hp.root_folded, hDots]

theorem Canonical.canonical_join (hp : c.Canonical p) (rest : String) :
    c.Canonical (c.canonicalize (join p.text rest)) := by
  obtain ⟨whole, hPath, -⟩ := hp.exists_slashes_join rest
  exact canonical_of_slashes hp.isRoot hPath

theorem Canonical.root_join (hp : c.Canonical p) (rest : String) :
    (c.canonicalize (join p.text rest)).root = p.root := by
  obtain ⟨whole, hPath, -⟩ := hp.exists_slashes_join rest
  rw [canonicalize_of_slashes hp.isRoot hPath, CanonicalPath.root_of
    (isRoot_fold hp.isRoot c) (plain_map_fold (plain_pieces_of_slashes hPath) c), hp.root_folded]

theorem Canonical.canonicalize_text (hp : c.Canonical p) : c.canonicalize p.text = p := by
  have hJoin := hp.canonicalize_join ""
  rw [show join p.text "" = p.text from if_pos rfl, show slashes "" = "" from rfl, pieces_empty,
    resolveDots_append_empty, resolveDots_of_plain hp.plain,
    List.map_congr_left hp.segments_folded, List.map_id', ← hp.eq_of] at hJoin
  exact hJoin

/-- The directory that relative paths start from is canonical. -/
def Anchored (c : Canonicalizer) : Prop :=
  c.Canonical ⟨c.currentDirectory⟩

/-- A path without a root starts from the canonicalizer's directory. -/
theorem canonicalize_relative (hc : c.Anchored) {path : String}
    (hRelative : isAbsolute (slashes path) = false) :
    c.canonicalize path = c.canonicalize (join c.currentDirectory path) := by
  have hSlashes := slashes_join (Canonical.backslash_not_mem hc) path
  obtain ⟨whole, hWhole, -⟩ := exists_join_eq hc.isRoot hc.plain (slashes path)
  rw [← Canonical.text_eq hc] at hWhole
  have hAbs : isAbsolute (join c.currentDirectory (slashes path)) = true := by
    rw [hWhole]
    exact isAbsolute_append hc.isRoot whole
  rw [canonicalize, canonicalize, hSlashes]
  simp only [hRelative, hAbs, if_true, Bool.false_eq_true, if_false]

theorem canonical_canonicalize (hc : c.Anchored) (path : String) :
    c.Canonical (c.canonicalize path) := by
  by_cases hAbs : isAbsolute (slashes path) = true
  · obtain ⟨root, rest, hRoot, hPath⟩ := exists_root_of_isAbsolute hAbs
    exact canonical_of_slashes hRoot hPath
  · rw [canonicalize_relative hc (Bool.eq_false_iff.2 hAbs)]
    exact Canonical.canonical_join hc path

theorem canonical_iff (hc : c.Anchored) :
    c.Canonical p ↔ ∃ path, c.canonicalize path = p := by
  constructor
  · exact fun hp => ⟨p.text, hp.canonicalize_text⟩
  · rintro ⟨path, rfl⟩
    exact canonical_canonicalize hc path

/-- The directory of a canonicalizer is the canonical form of an absolute path. -/
theorem exists_of_eq {workingDirectory : String}
    (hDir : isAbsolute (slashes workingDirectory) = true) (directory : String)
    (caseSensitive : Bool) :
    ∃ path, isAbsolute (slashes path) = true ∧
      Canonicalizer.of workingDirectory directory caseSensitive =
        ⟨(Canonicalizer.mk "" caseSensitive).fold (normalize (slashes path)), caseSensitive⟩ := by
  by_cases hAbs : isAbsolute (slashes directory) = true
  · refine ⟨directory, hAbs, ?_⟩
    simp only [Canonicalizer.of, hAbs, if_true]
  · obtain ⟨root, base, hRoot, hBase⟩ := exists_root_of_isAbsolute hDir
    obtain ⟨rest, hRest⟩ := exists_join_root root base (slashes directory)
    have hJoin : slashes (join (slashes workingDirectory) directory) =
        join (slashes workingDirectory) (slashes directory) :=
      slashes_join (not_mem_slashes workingDirectory) directory
    refine ⟨join (slashes workingDirectory) directory, ?_, ?_⟩
    · rw [hJoin, hBase, hRest]
      exact isAbsolute_append hRoot rest
    · rw [hJoin]
      simp only [Canonicalizer.of, hAbs, Bool.false_eq_true, if_false]

/-- The canonicalizer for a directory is anchored if the working directory is absolute. -/
theorem anchored_of {workingDirectory : String}
    (hDir : isAbsolute (slashes workingDirectory) = true) (directory : String)
    (caseSensitive : Bool) :
    (Canonicalizer.of workingDirectory directory caseSensitive).Anchored := by
  obtain ⟨path, hAbs, hOf⟩ := exists_of_eq hDir directory caseSensitive
  obtain ⟨root, rest, hRoot, hPath⟩ := exists_root_of_isAbsolute hAbs
  let c := Canonicalizer.of workingDirectory directory caseSensitive
  have hDirectory : c.canonicalize path = ⟨c.currentDirectory⟩ := by
    rw [canonicalize_of_isAbsolute hAbs, show c = _ from hOf]
    rfl
  have hCanonical : c.Canonical (c.canonicalize path) := canonical_of_slashes hRoot hPath
  rwa [hDirectory] at hCanonical

end Canonicalizer

end CompileHost
