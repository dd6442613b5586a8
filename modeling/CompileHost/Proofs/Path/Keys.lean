import CompileHost.Proofs.Path.NormalForm

/-!
# Canonical paths as keys

A canonical path shows in its text that it is one: it has a root, plain segments, nothing at its
end, and nothing to fold.  A canonicalizer leaves such texts alone, and turns all others into them.

* `Canonical.isNormal`: a canonical path is in normal form.
* `canonicalize_of_isNormal`: a path in normal form is left alone.
* `canonicalize_isNormal`: canonical forms are the paths in normal form.
-/

namespace CompileHost

open CompileHost.Path CompileHost.Text

/-! ## Normal forms -/

namespace Path

/-- What is said of a path in normal form, by its text alone. -/
structure IsNormal (caseSensitive : Bool) (text : String) : Prop where
  isAbsolute : isAbsolute text = true
  no_backslash : '\\' ∉ text.toList
  /-- Behind the root stands nothing, or segments that lead somewhere, and down. -/
  segments : (parts text).segments = [""] ∨
    ∀ s ∈ (parts text).segments, s ≠ "" ∧ s ≠ "." ∧ s ≠ ".."
  /-- Only a root ends in a slash. -/
  ends : endsWithSlash text = true → text = (parts text).root
  folded : caseSensitive = false → lower text = text

/-- Nothing is resolved in a normal path. -/
theorem IsNormal.normalize_eq {caseSensitive : Bool} {text : String}
    (h : IsNormal caseSensitive text) : normalize text = text := by
  obtain ⟨root, rest, hRoot, rfl⟩ := exists_root_of_isAbsolute h.isAbsolute
  have hSlashes : slashes (root ++ rest) = root ++ rest := slashes_eq_self h.no_backslash
  have hSegments := h.segments
  rw [parts_append hRoot] at hSegments
  dsimp only at hSegments
  have hRest : joined (resolveDots true (pieces rest)) = rest := by
    rcases hSegments with hNone | hMoves
    · have hEmpty : rest = "" := by
        rw [← joined_pieces rest, hNone]
        rfl
      subst hEmpty
      rfl
    · have hBackslash : '\\' ∉ rest.toList := by
        intro hMem
        apply h.no_backslash
        simp [hMem]
      have hPlain : ∀ s ∈ pieces rest, Plain s := by
        intro s hs
        obtain ⟨hEmpty, hDot, hUp⟩ := hMoves s hs
        exact ⟨hEmpty, hDot, hUp, slash_not_mem_of_mem_pieces hs,
          not_mem_of_mem_pieces hBackslash hs⟩
      rw [resolveDots_of_plain hPlain, joined_pieces]
  rw [normalize_append hRoot hSlashes, text_eq, hRest]

end Path

namespace Canonicalizer

variable {c : Canonicalizer} {p : CanonicalPath} {path other : String}

theorem Canonical.fold_text (hp : c.Canonical p) : c.fold p.text = p.text := by
  have hFolded : p.segments.map c.fold = p.segments := by
    rw [List.map_congr_left hp.segments_folded, List.map_id']
  rw [hp.text_eq, Canonicalizer.fold_text hp.isRoot, hp.root_folded, hFolded]

theorem Canonical.isNormal (hp : c.Canonical p) : IsNormal c.caseSensitive p.text := by
  have hText := hp.text_eq
  have hParts : parts p.text = ⟨p.root, pieces (joined p.segments)⟩ := by
    rw [hText, Path.text_eq]
    exact parts_append hp.isRoot _
  constructor
  · rw [hText, Path.text_eq]
    exact isAbsolute_append hp.isRoot _
  · exact hp.backslash_not_mem
  · rw [hParts]
    by_cases hNone : p.segments = []
    · left
      rw [hNone]
      rfl
    · right
      intro s hs
      rw [pieces_joined hNone fun s hs => (hp.plain s hs).no_slash] at hs
      have hPlain := hp.plain s hs
      exact ⟨hPlain.ne_empty, hPlain.ne_dot, hPlain.ne_up⟩
  · intro hEnds
    rw [hParts]
    by_cases hNone : p.segments = []
    · rw [hText, hNone]
      exact String.append_empty
    · rw [hText, endsWithSlash_text hNone hp.plain] at hEnds
      cases hEnds
  · intro hCase
    rw [← fold_of_not_caseSensitive hCase]
    exact hp.fold_text

theorem canonicalize_of_isNormal (hNormal : IsNormal c.caseSensitive path) :
    (c.canonicalize path).text = path := by
  have hSlashes : slashes path = path := slashes_eq_self hNormal.no_backslash
  have hFold : c.fold path = path := by
    cases hCase : c.caseSensitive with
    | true => exact fold_of_caseSensitive hCase path
    | false => rw [fold_of_not_caseSensitive hCase, hNormal.folded hCase]
  have hAbs : isAbsolute (slashes path) = true := by
    rw [hSlashes]
    exact hNormal.isAbsolute
  rw [canonicalize_of_isAbsolute hAbs]
  dsimp only
  rw [hSlashes, hNormal.normalize_eq, hFold]

/-- **Normal forms.**  Every canonical form is in normal form, and is its own canonical form and its
own canonical name.  A path without a root is taken from the canonicalizer's directory.  A path is
left alone only if it is in normal form. -/
theorem canonicalize_isNormal {workingDirectory : String}
    (hDir : isAbsolute (slashes workingDirectory) = true) (directory : String)
    (caseSensitive : Bool) (path : String) :
    let c := Canonicalizer.of workingDirectory directory caseSensitive
    let p := c.canonicalize path
    IsNormal caseSensitive p.text ∧ c.canonicalize p.text = p ∧ c.canonicalName p.text = p.text ∧
      (isAbsolute (slashes path) = false →
        c.canonicalize (join c.currentDirectory path) = p) ∧
      (p.text = path ↔ IsNormal caseSensitive path) := by
  intro c p
  have hc : c.Anchored := anchored_of hDir directory caseSensitive
  have hp : c.Canonical p := canonical_canonicalize hc path
  have hNormal : IsNormal caseSensitive p.text := hp.isNormal
  refine ⟨hNormal, hp.canonicalize_text, ?_, ?_, ?_, ?_⟩
  · rw [canonicalName, slashes_eq_self hp.backslash_not_mem, hp.fold_text]
  · intro hRelative
    exact (canonicalize_relative hc hRelative).symm
  · intro hSame
    rwa [hSame] at hNormal
  · intro hPath
    exact canonicalize_of_isNormal (c := c) hPath

/-- A directory on a drive, and a path that goes up beyond it. -/
theorem canonicalize_isNormal_drive :
    isAbsolute (slashes "/work") = true ∧
    let c := Canonicalizer.of "/work" "C:\\Work" false
    let p := c.canonicalize "..\\../.././C:/.\\\\Src/"
    p.text = "c:/c:/src" ∧ IsNormal false p.text ∧ c.canonicalize p.text = p := by
  have hDir : isAbsolute (slashes "/work") = true := by decide
  have h := canonicalize_isNormal hDir "C:\\Work" false "..\\../.././C:/.\\\\Src/"
  exact ⟨hDir, by decide +kernel, h.1, h.2.1⟩

end Canonicalizer

end CompileHost
