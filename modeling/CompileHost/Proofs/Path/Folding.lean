import CompileHost.Proofs.Path.Keys

/-!
# Letter case in paths

Where case does not count, a path is folded at the very end, after its slashes, its root and its
dots have been read as it is spelled.  Lower-casing changes none of them but for one root: the
Kelvin sign is no letter of ASCII, but becomes the letter `k`, so a path may be relative and have
the drive `k:/` in lower case.

* `lower_slashes`, `pieces_lower`, `resolveDots_map_lower`: slashes and dots are the same in lower
  case.
* `isAbsolute_iff_lower`: when a path has a root, by its lower-case form.
* `canonicalize_eq_of_lower_eq`: which paths with one lower-case form have one canonical form.
-/

namespace CompileHost

open CompileHost.Path CompileHost.Text

/-! ## Lower-case paths -/

namespace Path

/-- A slash for a backslash. -/
def slashed (c : Char) : Char :=
  if c = '\\' then '/' else c

theorem slashes_eq (path : String) : slashes path = String.ofList (path.toList.map slashed) := rfl

theorem slashed_cases (c : Char) : c = '\\' ∧ slashed c = '/' ∨ c ≠ '\\' ∧ slashed c = c := by
  unfold slashed
  split
  · rename_i hBackslash
    exact Or.inl ⟨hBackslash, rfl⟩
  · rename_i hOther
    exact Or.inr ⟨hOther, rfl⟩

/-- A backslash stops what a slash stops. -/
theorem meetsCased_map_slashed (cs : List Char) : meetsCased (cs.map slashed) = meetsCased cs := by
  have hIgnored : isCaseIgnorable ∘ slashed = isCaseIgnorable := by
    funext c
    rw [Function.comp_apply]
    rcases slashed_cases c with ⟨rfl, hSlash⟩ | ⟨-, hSame⟩
    · decide +kernel
    · rw [hSame]
  have hCased : ∀ c, isCased (slashed c) = isCased c := by
    intro c
    rcases slashed_cases c with ⟨rfl, hSlash⟩ | ⟨-, hSame⟩
    · decide +kernel
    · rw [hSame]
  rw [meetsCased, meetsCased, List.dropWhile_map, hIgnored]
  cases cs.dropWhile isCaseIgnorable with
  | nil => rfl
  | cons c later => exact hCased c

theorem lowerAfter_map_slashed (seen cs : List Char) :
    lowerAfter (seen.map slashed) (cs.map slashed) = (lowerAfter seen cs).map slashed := by
  induction cs generalizing seen with
  | nil => rfl
  | cons c cs ih =>
    have hHere : lowerAt (seen.map slashed) (slashed c) (cs.map slashed) =
        (lowerAt seen c cs).map slashed := by
      rcases slashed_cases c with ⟨rfl, hSlash⟩ | ⟨hOther, hSame⟩
      · rw [hSlash, lowerAt_of_settled (settled_of_mark (by decide)),
          lowerAt_of_settled (settled_of_mark (by decide))]
        rfl
      · have hKept : ∀ d ∈ lowerAt seen c cs, slashed d = d := by
          intro d hd
          apply if_neg
          rintro rfl
          exact hOther ((lowerAt_spec hd).2 (by decide)).symm
        rw [hSame, List.map_congr_left hKept, List.map_id', lowerAt, lowerAt,
          meetsCased_map_slashed, meetsCased_map_slashed]
    have hLater := ih (c :: seen)
    rw [List.map_cons] at hLater
    rw [List.map_cons, lowerAfter_cons, lowerAfter_cons, List.map_append, hHere, hLater]

theorem lower_slashes (path : String) : lower (slashes path) = slashes (lower path) := by
  have h := lowerAfter_map_slashed [] path.toList
  rw [List.map_nil] at h
  rw [slashes_eq, slashes_eq, lower, lower, String.toList_ofList, String.toList_ofList, h]

theorem pushSegment_map_lower (rooted : Bool) (walked : List String) (segment : String) :
    pushSegment rooted (walked.map lower) (lower segment) =
      (pushSegment rooted walked segment).map lower := by
  have hEmpty : ∀ s, lower s = "" ↔ s = "" := lower_eq_iff_of_marks (by decide)
  have hDot : ∀ s, lower s = "." ↔ s = "." := lower_eq_iff_of_marks (by decide)
  have hUp : ∀ s, lower s = ".." ↔ s = ".." := lower_eq_iff_of_marks (by decide)
  have hUps : lower ".." = ".." := (hUp "..").2 rfl
  by_cases hStays : segment = "" ∨ segment = "."
  · have hStays' : lower segment = "" ∨ lower segment = "." := by
      rwa [hEmpty, hDot]
    rw [pushSegment.eq_def, if_pos hStays', pushSegment.eq_def, if_pos hStays]
  · have hStays' : ¬ (lower segment = "" ∨ lower segment = ".") := by
      rwa [hEmpty, hDot]
    rw [pushSegment.eq_def, if_neg hStays', pushSegment.eq_def, if_neg hStays]
    by_cases hRises : segment = ".."
    · rw [if_pos ((hUp segment).2 hRises), if_pos hRises]
      cases walked with
      | nil => cases rooted <;> simp [hUps]
      | cons nearest above =>
        by_cases hNearest : nearest = ".."
        · cases rooted <;> simp [hNearest, hUps]
        · simp [hNearest, hUp]
    · rw [if_neg (mt (hUp segment).1 hRises), if_neg hRises, List.map_cons]

/-- Dots are the same in lower case. -/
theorem resolveDots_map_lower (rooted : Bool) (segments : List String) :
    resolveDots rooted (segments.map lower) = (resolveDots rooted segments).map lower := by
  have hFold : ∀ walked : List String,
      (segments.map lower).foldl (pushSegment rooted) (walked.map lower) =
        (segments.foldl (pushSegment rooted) walked).map lower := by
    induction segments with
    | nil => exact fun _ => rfl
    | cons segment segments ih =>
      intro walked
      rw [List.map_cons, List.foldl_cons, List.foldl_cons, pushSegment_map_lower, ih]
  have h := hFold []
  rw [List.map_nil] at h
  rw [resolveDots, resolveDots, h, List.map_reverse]

/-- What would be a drive, if the Kelvin sign were the letter that it is folded into. -/
def HasKelvinDrive (path : String) : Prop :=
  ∃ rest, slashes path = "\u212a:/" ++ rest

theorem lower_kelvinDrive (rest : String) : lower ("\u212a:/" ++ rest) = "k:/" ++ lower rest := by
  have hDrive : lower "\u212a:" = "k:" := by decide +kernel
  have hSplit : "\u212a:/" = "\u212a:" ++ "/" := rfl
  rw [hSplit, lower_append_slash, hDrive]
  rfl

theorem exists_of_lowerAfter_eq_colon {seen cs rest : List Char}
    (hLower : lowerAfter seen cs = ':' :: '/' :: rest) : ∃ later, cs = ':' :: '/' :: later := by
  obtain ⟨behind, rfl, hBehind⟩ := exists_of_lowerAfter_eq_cons (by decide) hLower
  obtain ⟨later, rfl, -⟩ := exists_of_lowerAfter_eq_cons (by decide) hBehind
  exact ⟨later, rfl⟩

/-- A drive in lower case has a letter as it is spelled, or the Kelvin sign. -/
theorem exists_of_lowerAfter_eq_drive {letter : Char} (hLetter : letter.isAlpha = true)
    {cs rest : List Char} (hLower : lowerAfter [] cs = letter :: ':' :: '/' :: rest) :
    ∃ c later, cs = c :: ':' :: '/' :: later ∧ (c.isAlpha = true ∨ c = '\u212a') := by
  cases cs with
  | nil => cases hLower
  | cons c cs =>
    have hMem := mem_lowerAt_of_lowerAfter_eq_cons hLower
    rw [lowerAfter_cons] at hLower
    rcases ascii_or_of_mem_lowerAt hMem (toNat_lt_of_isAlpha hLetter) with hAscii | rfl | rfl
    · have hAll : ∀ n < 0x80, Char.ofNat n ≠ 'Σ' ∧
          ((Char.ofNat n).toLower.isAlpha = true → (Char.ofNat n).isAlpha = true) := by
        decide +kernel
      obtain ⟨hSigma, hAlpha⟩ := hAll c.toNat hAscii
      rw [Char.ofNat_toNat] at hSigma hAlpha
      rw [lowerAt_of_ne hSigma, lowerChar, if_pos hAscii] at hLower
      obtain ⟨rfl, hBehind⟩ := List.cons.inj hLower
      obtain ⟨later, rfl⟩ := exists_of_lowerAfter_eq_colon hBehind
      exact ⟨c, later, rfl, Or.inl (hAlpha hLetter)⟩
    -- the first of the two characters is a letter, but the second is no colon
    · have hTwo : lowerAt [] 'İ' cs = ['i', '\u0307'] := rfl
      rw [hTwo] at hLower
      simp at hLower
    · have hOne : lowerAt [] '\u212a' cs = ['k'] := by
        rw [lowerAt_of_ne (by decide)]
        decide +kernel
      rw [hOne] at hLower
      obtain ⟨later, rfl⟩ := exists_of_lowerAfter_eq_colon (List.cons.inj hLower).2
      exact ⟨'\u212a', later, rfl, Or.inr rfl⟩

/-- Only behind a Kelvin sign a path has a root in lower case, and none as it is spelled. -/
theorem isAbsolute_iff_lower (path : String) :
    isAbsolute (slashes path) = true ↔
      isAbsolute (slashes (lower path)) = true ∧ ¬ HasKelvinDrive path := by
  rw [← lower_slashes]
  unfold HasKelvinDrive
  generalize slashes path = text
  constructor
  · intro hAbs
    constructor
    · obtain ⟨root, rest, hRoot, rfl⟩ := exists_root_of_isAbsolute hAbs
      rw [lower_append_root hRoot]
      exact isAbsolute_append (isRoot_lower hRoot) _
    · rintro ⟨rest, rfl⟩
      rw [isAbsolute, String.toList_append] at hAbs
      simp [rootLength] at hAbs
  · rintro ⟨hAbs, hNone⟩
    obtain ⟨root, rest, hRoot, hText⟩ := exists_root_of_isAbsolute hAbs
    have hLower : lowerAfter [] text.toList = root.toList ++ rest.toList := by
      rw [← String.toList_append, ← hText, lower, String.toList_ofList]
    rcases hRoot with rfl | ⟨letter, hLetter, rfl⟩
    · obtain ⟨later, hLater, -⟩ := exists_of_lowerAfter_eq_cons (by decide) hLower
      rw [isAbsolute, hLater]
      rfl
    · rw [String.toList_ofList] at hLower
      obtain ⟨c, later, hDrive, hAlpha | rfl⟩ := exists_of_lowerAfter_eq_drive hLetter hLower
      · have hRoot : IsRoot (String.ofList [c, ':', '/']) := Or.inr ⟨c, hAlpha, rfl⟩
        have hText : text = String.ofList [c, ':', '/'] ++ String.ofList later := by
          apply String.toList_inj.1
          rw [hDrive]
          simp
        rw [hText]
        exact isAbsolute_append hRoot _
      · exfalso
        apply hNone
        refine ⟨String.ofList later, ?_⟩
        apply String.toList_inj.1
        rw [hDrive]
        simp

end Path

/-! ## Spellings of one key -/

namespace Canonicalizer

variable {c : Canonicalizer} {path other : String}

/-- The canonical form of a path with a root shows in its lower-case form. -/
theorem canonicalize_of_lower (hCase : c.caseSensitive = false)
    (hAbs : isAbsolute (slashes path) = true) :
    c.canonicalize path =
      CanonicalPath.of (parts (slashes (lower path))).root
        (resolveDots true (parts (slashes (lower path))).segments) := by
  obtain ⟨root, rest, hRoot, hPath⟩ := exists_root_of_isAbsolute hAbs
  have hFold : c.fold = lower := by
    funext text
    exact fold_of_not_caseSensitive hCase text
  have hLower : slashes (lower path) = lower root ++ lower rest := by
    rw [← lower_slashes, hPath, lower_append_root hRoot]
  rw [canonicalize_of_slashes hRoot hPath, hFold, hLower, parts_append (isRoot_lower hRoot),
    pieces_lower, resolveDots_map_lower]

/-- And so does that of a path without one. -/
theorem canonicalize_relative_of_lower (hc : c.Anchored) (hCase : c.caseSensitive = false)
    (hRelative : isAbsolute (slashes path) = false) :
    c.canonicalize path =
      CanonicalPath.of (CanonicalPath.root ⟨c.currentDirectory⟩)
        (resolveDots true
          (CanonicalPath.segments ⟨c.currentDirectory⟩ ++ pieces (slashes (lower path)))) := by
  have hFold : c.fold = lower := by
    funext text
    exact fold_of_not_caseSensitive hCase text
  have hFolded : (CanonicalPath.segments ⟨c.currentDirectory⟩).map lower =
      CanonicalPath.segments ⟨c.currentDirectory⟩ := by
    rw [← hFold, List.map_congr_left hc.segments_folded, List.map_id']
  rw [canonicalize_relative hc hRelative, Canonical.canonicalize_join hc, hFold,
    ← resolveDots_map_lower, List.map_append, hFolded, ← pieces_lower, lower_slashes]

theorem root_of_kelvinDrive (hc : c.Anchored) (hKelvin : HasKelvinDrive path) :
    (c.canonicalize path).root = CanonicalPath.root ⟨c.currentDirectory⟩ := by
  have hRelative : isAbsolute (slashes path) = false := by
    rw [Bool.eq_false_iff]
    intro hAbs
    exact ((isAbsolute_iff_lower path).1 hAbs).2 hKelvin
  rw [canonicalize_relative hc hRelative]
  exact Canonical.root_join hc path

theorem root_of_lower_kelvinDrive (hCase : c.caseSensitive = false) (hKelvin : HasKelvinDrive path)
    (hSame : lower path = lower other) (hOther : ¬ HasKelvinDrive other) :
    (c.canonicalize other).root = "k:/" := by
  obtain ⟨rest, hRest⟩ := hKelvin
  have hDrive : IsRoot "k:/" := Or.inr ⟨'k', by decide, rfl⟩
  have hLower : slashes (lower other) = "k:/" ++ lower rest := by
    rw [← hSame, ← lower_slashes, hRest, lower_kelvinDrive]
  have hAbs : isAbsolute (slashes other) = true := by
    rw [isAbsolute_iff_lower, hLower]
    exact ⟨isAbsolute_append hDrive _, hOther⟩
  have hPlain := plain_pieces_of_slashes hLower
  rw [canonicalize_of_lower hCase hAbs, hLower, parts_append hDrive,
    CanonicalPath.root_of hDrive hPlain]

/-- **Case folding.**  Where case does not count, paths with one lower-case form have one canonical
form, unless just one of them begins with a Kelvin sign in the place of a drive's letter.  That one
is relative, and the other has the drive `k:/`, so that they differ if the canonicalizer's directory
is not on that drive. -/
theorem canonicalize_eq_of_lower_eq (hc : c.Anchored) (hCase : c.caseSensitive = false)
    (hSame : lower path = lower other) :
    ((HasKelvinDrive path ↔ HasKelvinDrive other) →
        c.canonicalize path = c.canonicalize other) ∧
      (CanonicalPath.root ⟨c.currentDirectory⟩ ≠ "k:/" →
        c.canonicalize path = c.canonicalize other →
          (HasKelvinDrive path ↔ HasKelvinDrive other)) := by
  constructor
  · intro hKelvin
    have hAlike : isAbsolute (slashes path) = isAbsolute (slashes other) := by
      rw [Bool.eq_iff_iff, isAbsolute_iff_lower, isAbsolute_iff_lower other, hSame, hKelvin]
    cases hAbs : isAbsolute (slashes other) with
    | true =>
      rw [canonicalize_of_lower hCase hAbs, canonicalize_of_lower hCase (hAlike.trans hAbs), hSame]
    | false =>
      rw [canonicalize_relative_of_lower hc hCase hAbs,
        canonicalize_relative_of_lower hc hCase (hAlike.trans hAbs), hSame]
  · intro hDirectory hKeys
    have hRoots := congrArg CanonicalPath.root hKeys
    by_cases hPath : HasKelvinDrive path
    · by_cases hOther : HasKelvinDrive other
      · exact iff_of_true hPath hOther
      · rw [root_of_kelvinDrive hc hPath,
          root_of_lower_kelvinDrive hCase hPath hSame hOther] at hRoots
        exact absurd hRoots hDirectory
    · by_cases hOther : HasKelvinDrive other
      · rw [root_of_kelvinDrive hc hOther,
          root_of_lower_kelvinDrive hCase hOther hSame.symm hPath] at hRoots
        exact absurd hRoots.symm hDirectory
      · exact iff_of_false hPath hOther

/-- A letter that becomes two, a way back over it, and a sigma at the end of a name. -/
theorem canonicalize_eq_of_lower_eq_sigma :
    let c := Canonicalizer.of "/work" "." false
    c.Anchored ∧ c.caseSensitive = false ∧
      lower "İ\\..\\ΟΣ\\B.ts" = lower "i\u0307\\..\\Ος\\b.TS" ∧
      c.canonicalize "İ\\..\\ΟΣ\\B.ts" = c.canonicalize "i\u0307\\..\\Ος\\b.TS" := by
  intro c
  have hc : c.Anchored := anchored_of (by decide) "." false
  have hSame : lower "İ\\..\\ΟΣ\\B.ts" = lower "i\u0307\\..\\Ος\\b.TS" := by
    decide +kernel
  have hKelvin : ∀ {path : String}, (slashes path).toList.head? ≠ some '\u212a' →
      ¬ HasKelvinDrive path := by
    rintro path hHead ⟨rest, hRest⟩
    apply hHead
    rw [hRest]
    simp
  refine ⟨hc, rfl, hSame, (canonicalize_eq_of_lower_eq hc rfl hSame).1 ?_⟩
  exact iff_of_false (hKelvin (by decide +kernel)) (hKelvin (by decide +kernel))

/-- A name that begins with the Kelvin sign, and the drive that it looks like in lower case. -/
theorem canonicalize_kelvin_ne :
    let c := Canonicalizer.of "/tmp/tsfs" "." false
    c.Anchored ∧ c.caseSensitive = false ∧ lower "\u212a:/a" = lower "k:/a" ∧
      c.canonicalize "\u212a:/a" ≠ c.canonicalize "k:/a" := by
  intro c
  refine ⟨anchored_of (by decide) "." false, rfl, ?_, ?_⟩
  · decide +kernel
  · decide +kernel

end Canonicalizer

end CompileHost
