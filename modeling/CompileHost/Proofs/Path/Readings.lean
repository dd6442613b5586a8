import CompileHost.Proofs.FileTree.Walk
import CompileHost.Proofs.Path.NormalForm

/-!
# Two readings of a path

The canonicalizer resolves the dots of a path in its text, from a directory of its own; a file tree
resolves them on the way, where the walk has really come to.  Both readings of a path lead to one
place if they start from one directory, if the path is spelled with the letters of its canonical
form, and if each of its `..` goes back over a directory and not over a link.

* `reaches_resolveDots_iff`: a walk with its dots, and the walk that is left when they are resolved.
* `ReadAlike.text_eq`: the canonical form of a path that both read alike.
* `ReadAlike.isFile_eq`: such a path and its canonical form name a file, or neither does.
-/

namespace CompileHost

open CompileHost.Path CompileHost.Text FileTree

theorem CanonicalPath.segments_rooted {p : List String} (hSteps : ∀ s ∈ p, IsStep (s : RawText)) :
    (⟨rooted p⟩ : CanonicalPath).segments = p ∧ (⟨rooted p⟩ : CanonicalPath).root = "/" := by
  have hPath : rooted p = "/" ++ joined p := rfl
  rw [segments, root, hPath, parts_append (Or.inl rfl)]
  refine ⟨?_, rfl⟩
  by_cases hNil : p = []
  · subst hNil
    rfl
  · dsimp only
    rw [pieces_joined hNil fun s hs => (isStep_ofText_iff.1 (hSteps s hs)).2, List.filter_eq_self]
    exact fun s hs => decide_eq_true (isStep_ofText_iff.1 (hSteps s hs)).1

/-! ## A walk in the text -/

namespace Path

theorem resolveDots_concat (segments : List String) (segment : String) :
    resolveDots true (segments ++ [segment]) =
      (pushSegment true (resolveDots true segments).reverse segment).reverse := by
  rw [resolveDots, resolveDots, List.foldl_append, List.reverse_reverse]
  rfl

theorem resolveDots_concat_plain {segment : String} (hPlain : Plain segment)
    (segments : List String) :
    resolveDots true (segments ++ [segment]) = resolveDots true segments ++ [segment] := by
  rw [resolveDots_concat, pushSegment_plain hPlain, List.reverse_cons, List.reverse_reverse]

theorem resolveDots_concat_dot (segments : List String) :
    resolveDots true (segments ++ ["."]) = resolveDots true segments := by
  rw [resolveDots_concat, pushSegment_of_not_moves (by decide), List.reverse_reverse]

theorem resolveDots_concat_up {segments : List String}
    (hResolved : ∀ s ∈ resolveDots true segments, Plain s) :
    resolveDots true (segments ++ [".."]) = (resolveDots true segments).dropLast := by
  rw [resolveDots_concat, pushSegment_up fun s hs => hResolved s (List.mem_reverse.1 hs),
    List.drop_one, List.tail_reverse, List.reverse_reverse]

/-- What stands between the slashes of a path without backslashes. -/
def IsSegment (s : String) : Prop :=
  s = "." ∨ s = ".." ∨ Plain s

theorem plain_resolveDots_of_isSegment {base segments : List String}
    (hBase : ∀ s ∈ base, Plain s) (hSegments : ∀ s ∈ segments, IsSegment s) :
    ∀ s ∈ resolveDots true (base ++ segments), Plain s := by
  have hMarks : ∀ s ∈ base ++ segments, '/' ∉ s.toList ∧ '\\' ∉ s.toList := by
    refine List.forall_mem_append.2 ⟨fun s hs => ?_, fun s hs => ?_⟩
    · exact ⟨(hBase s hs).no_slash, (hBase s hs).no_backslash⟩
    · rcases hSegments s hs with rfl | rfl | hPlain
      · decide
      · decide
      · exact ⟨hPlain.no_slash, hPlain.no_backslash⟩
  exact plain_resolveDots (fun s hs => (hMarks s hs).1) fun s hs => (hMarks s hs).2

theorem mem_of_mem_pushSegment {walked : List String} {segment s : String}
    (hs : s ∈ pushSegment true walked segment) : s ∈ walked ∨ s = segment := by
  rw [pushSegment.eq_def] at hs
  split at hs
  · exact .inl hs
  · split at hs
    · cases walked with
      | nil => cases hs
      | cons nearest above =>
        refine .inl ?_
        dsimp only at hs
        split at hs
        · exact List.mem_cons_of_mem _ hs
        · exact hs
    · exact (List.mem_cons.1 hs).symm

theorem mem_of_mem_resolveDots {segments : List String} {s : String}
    (hs : s ∈ resolveDots true segments) : s ∈ segments := by
  induction segments using List.reverseRecOn with
  | nil => cases hs
  | append_singleton segments segment ih =>
    rw [resolveDots_concat, List.mem_reverse] at hs
    rcases mem_of_mem_pushSegment hs with hBefore | rfl
    · exact List.mem_append_left _ (ih (List.mem_reverse.1 hBefore))
    · exact List.mem_append_right _ List.mem_cons_self

end Path

namespace FileTree

variable {t : FileTree} {q : Place} {above base xs : List String} {nearest : String} {n : Nat}

/-- The names lead to a directory, and the last of them is not that of a link. -/
def OverDirectory (t : FileTree) (above : List String) (nearest : String) : Prop :=
  ∃ n r, Reaches t .name n [] (placeOf above) r ∧ Seeks t .name r nearest ∧
    t.node? (r ++ [(nearest : RawText)]) = some .directory

/-- Every `..` goes back over a directory, and over no link. -/
def RisesOverDirectories (t : FileTree) (base xs : List String) : Prop :=
  ∀ before after, xs = before ++ ".." :: after →
    ∀ above nearest, resolveDots true (base ++ before) = above ++ [nearest] →
      OverDirectory t above nearest

theorem RisesOverDirectories.of_append {ys : List String}
    (h : RisesOverDirectories t base (xs ++ ys)) : RisesOverDirectories t base xs := by
  rintro before after rfl
  exact h before (after ++ ys) (List.append_assoc _ _ _)

namespace OverDirectory

variable (h : OverDirectory t above nearest)
include h

theorem exists_reaches : ∃ m r, Reaches t .name m [] (placeOf above) r ∧
    Reaches t .name m [] (placeOf (above ++ [nearest])) (r ++ [(nearest : RawText)]) ∧
      t.node? (r ++ [(nearest : RawText)]) = some .directory := by
  obtain ⟨m, r, hAbove, hSeek, hNode⟩ := h
  refine ⟨m, r, hAbove, ?_, hNode⟩
  rw [placeOf_append]
  exact hAbove.trans (.descends hSeek hNode nofun (.arrived _))

theorem reaches_iff : Reaches t .name n [] (placeOf (above ++ [nearest])) q ↔
    ∃ r, Reaches t .name n [] (placeOf above) r ∧ q = r ++ [(nearest : RawText)] := by
  obtain ⟨m, r, hAbove, hHere, -⟩ := h.exists_reaches
  constructor
  · intro hWalk
    obtain rfl := hWalk.unique hHere
    obtain rfl := hWalk.links_unique hHere
    exact ⟨r, hAbove, rfl⟩
  · rintro ⟨r', hWalk, rfl⟩
    obtain rfl := hWalk.unique hAbove
    obtain rfl := hWalk.links_unique hAbove
    exact hHere

theorem directory (hWalk : Reaches t .name n [] (placeOf (above ++ [nearest])) q) :
    t.node? q = some .directory := by
  obtain ⟨m, r, -, hHere, hNode⟩ := h.exists_reaches
  obtain rfl := hWalk.unique hHere
  exact hNode

end OverDirectory

/-- Going up behind a walk in the text, and on the way. -/
theorem reaches_up_iff
    (hOver : ∀ above nearest, xs = above ++ [nearest] → OverDirectory t above nearest) :
    (∃ r, Reaches t .name n [] (placeOf xs) r ∧ Opens t .name r ".." ∧ q = r.dropLast) ↔
      Reaches t .name n [] (placeOf xs.dropLast) q := by
  rcases List.eq_nil_or_concat xs with rfl | ⟨above, nearest, rfl⟩
  · constructor
    · rintro ⟨r, ⟨⟩, -, rfl⟩
      exact .arrived []
    · rintro ⟨⟩
      exact ⟨[], .arrived [], ⟨rfl, rfl⟩, rfl⟩
  · rw [List.concat_eq_append] at hOver ⊢
    have hHere := hOver above nearest rfl
    rw [List.dropLast_concat]
    constructor
    · rintro ⟨r, hWalk, -, rfl⟩
      obtain ⟨r, hAbove, rfl⟩ := hHere.reaches_iff.1 hWalk
      rwa [List.dropLast_concat]
    · intro hAbove
      have hWalk := hHere.reaches_iff.2 ⟨q, hAbove, rfl⟩
      exact ⟨_, hWalk, ⟨rfl, hHere.directory hWalk⟩, List.dropLast_concat.symm⟩

/-- A walk may be made without its dots: it leads to the same place, through as many links.  But a
dot at its end asks for a directory. -/
theorem reaches_resolveDots_iff (hReal : Real t (placeOf base)) (hBase : ∀ s ∈ base, Plain s)
    (hSegments : ∀ s ∈ xs, IsSegment s) (hRises : RisesOverDirectories t base xs) :
    Reaches t .name n (placeOf base) (placeOf xs) q ↔
      Reaches t .name n [] (placeOf (resolveDots true (base ++ xs))) q ∧
        (xs.getLast? = some "." → t.node? q = some .directory) := by
  induction xs using List.reverseRecOn generalizing n q with
  | nil =>
    rw [List.append_nil, resolveDots_of_plain hBase]
    constructor
    · rintro ⟨⟩
      exact ⟨hReal.reaches, nofun⟩
    · rintro ⟨hBack, -⟩
      obtain rfl := hBack.unique hReal.reaches
      obtain rfl := hBack.links_unique hReal.reaches
      exact .arrived _
  | append_singleton xs s ih =>
    obtain ⟨hBefore, hLast⟩ := List.forall_mem_append.1 hSegments
    have hResolved := plain_resolveDots_of_isSegment hBase hBefore
    have hFirst {q : Place} {n : Nat} := @ih q n hBefore hRises.of_append
    rw [placeOf_append, ← List.append_assoc, List.getLast?_concat, Option.some.injEq]
    rcases List.forall_mem_singleton.1 hLast with rfl | rfl | hPlain
    -- a dot stays, and asks for a directory
    · rw [resolveDots_concat_dot]
      constructor
      · intro hWalk
        obtain ⟨hTo, hOpen⟩ := reaches_concat_dot_iff.1 hWalk
        exact ⟨(hFirst.1 hTo).1, fun _ => hOpen.directory⟩
      · rintro ⟨hTo, hDirectory⟩
        have hOpen : Opens t .name q "." := ⟨rfl, hDirectory rfl⟩
        exact reaches_concat_dot_iff.2 ⟨hFirst.2 ⟨hTo, fun _ => hOpen.directory⟩, hOpen⟩
    -- two dots take back a directory, here and there
    · rw [resolveDots_concat_up hResolved]
      have hNoDot : ".." = "." → t.node? q = some .directory := fun h => absurd h (by decide)
      have hSame (r : Place) (hOpen : Opens t .name r "..") :
          Reaches t .name n (placeOf base) (placeOf xs) r ↔
            Reaches t .name n [] (placeOf (resolveDots true (base ++ xs))) r := by
        rw [hFirst]
        exact and_iff_left fun _ => hOpen.directory
      rw [← reaches_up_iff fun above nearest hS => hRises xs [] rfl above nearest hS,
        and_iff_left hNoDot]
      refine Iff.trans reaches_concat_up_iff (exists_congr fun r => ?_)
      exact and_congr_left fun hUp => hSame r hUp.1
    -- a name that is looked up asks for a directory as well, so an earlier dot changes nothing
    · rw [resolveDots_concat_plain hPlain, placeOf_append]
      have hNoDot : s = "." → t.node? q = some .directory := fun h => absurd h hPlain.ne_dot
      constructor
      · intro hWalk
        obtain ⟨m, k, r, rfl, hTo, hLook⟩ := hWalk.split
        exact ⟨(hFirst.1 hTo).1.trans hLook, hNoDot⟩
      · rintro ⟨hWalk, -⟩
        obtain ⟨m, k, r, rfl, hTo, hLook⟩ := hWalk.split
        exact (hFirst.2 ⟨hTo, fun _ => (hLook.seeks hPlain.isName).directory⟩).trans hLook

theorem isSegment_of_mem_stepTexts {path s : String} (hBackslash : '\\' ∉ path.toList)
    (hs : s ∈ stepTexts path) : IsSegment s := by
  rcases List.mem_append.1 hs with hPiece | hDot
  · obtain ⟨hIn, hSome⟩ := List.mem_filter.1 hPiece
    by_cases hDot : s = "."
    · exact .inl hDot
    · by_cases hUp : s = ".."
      · exact .inr (.inl hUp)
      · exact .inr (.inr ⟨of_decide_eq_true hSome, hDot, hUp, slash_not_mem_of_mem_pieces hIn,
          not_mem_of_mem_pieces hBackslash hIn⟩)
  · split at hDot
    · exact .inl (List.mem_singleton.1 hDot)
    · cases hDot

/-- The steps of a path are the segments of its text, but for those that lead nowhere. -/
theorem resolveDots_append_stepTexts (base : List String) (path : String) :
    resolveDots true (base ++ stepTexts path) = resolveDots true (base ++ pieces path) := by
  have hEnd : (if path.toList.getLast? = some '/' then ["."] else []).filter moves = [] := by
    split <;> rfl
  have hMoves : (stepTexts path).filter moves = (pieces path).filter moves := by
    rw [stepTexts, List.filter_append, hEnd, List.append_nil, List.filter_filter]
    refine List.filter_congr fun s _ => ?_
    by_cases hEmpty : s = "" <;> simp [moves, hEmpty]
  rw [← resolveDots_append_filter, hMoves, resolveDots_append_filter]

end FileTree

/-! ## Paths that both read alike -/

namespace Canonicalizer

variable {c : Canonicalizer} {t : FileTree} {name : String}

theorem backslash_not_mem_of_canonicalName (hSpelled : c.canonicalName name = name) :
    '\\' ∉ name.toList := by
  rw [← hSpelled, canonicalName, fold]
  split
  · exact not_mem_slashes name
  · exact mt (mem_lower_iff (by decide) _).1 (not_mem_slashes name)

theorem fold_of_mem_pieces {text s : String} (hFolded : c.fold text = text)
    (hs : s ∈ pieces text) : c.fold s = s := by
  cases hCase : c.caseSensitive with
  | true => exact fold_of_caseSensitive hCase s
  | false =>
    rw [fold_of_not_caseSensitive hCase] at hFolded ⊢
    have hPieces := pieces_lower text
    rw [hFolded] at hPieces
    exact List.map_inj_left.1 (hPieces.symm.trans (List.map_id _).symm) s hs

theorem fold_of_marks {text : String}
    (hMarks : text.toList.all (fun c => decide (c ∈ pathMarks)) = true) : c.fold text = text := by
  unfold fold
  split
  · rfl
  · exact (lower_eq_iff_of_marks hMarks text).2 rfl

/-- The segments of the directory that a path starts from. -/
def base (c : Canonicalizer) (name : String) : List String :=
  if name.toList.head? = some '/' then [] else (⟨c.currentDirectory⟩ : CanonicalPath).segments

/-- A path that a canonicalizer and a file tree read alike. -/
structure ReadAlike (c : Canonicalizer) (t : FileTree) (name : String) : Prop where
  /-- There is no backslash, and nothing to fold. -/
  spelled : c.canonicalName name = name
  /-- It starts from the root, or from the directory that both have in common. -/
  starts : name.toList.head? = some '/' ∨ isAbsolute name = false ∧
    placePath t.workingDirectory = c.currentDirectory ∧ Real t t.workingDirectory ∧
      t.node? t.workingDirectory = some .directory
  /-- Each of its `..` goes back over a directory, and not over a link. -/
  rises : RisesOverDirectories t (c.base name) (stepTexts name)
  /-- It does not end in a slash or in a segment `.`, unless its canonical form names no file. -/
  ends : (stepTexts name).getLast? = some "." → t.isFile (c.canonicalize name).text = false
  fits : Fits name
  fits_canonical : Fits (c.canonicalize name).text

namespace ReadAlike

theorem slashes_eq (h : ReadAlike c t name) : slashes name = name :=
  slashes_eq_self (backslash_not_mem_of_canonicalName h.spelled)

theorem fold_eq (h : ReadAlike c t name) : c.fold name = name := by
  have hSpelled := h.spelled
  rwa [canonicalName, h.slashes_eq] at hSpelled

theorem fold_of_mem (h : ReadAlike c t name) : ∀ s ∈ stepTexts name, c.fold s = s := by
  intro s hs
  rcases List.mem_append.1 hs with hPiece | hDot
  · exact fold_of_mem_pieces h.fold_eq (List.mem_filter.1 hPiece).1
  · split at hDot
    · rw [List.mem_singleton.1 hDot]
      exact fold_of_marks (by decide)
    · cases hDot

/-- The directory that the path starts from, as the canonicalizer sees it. -/
structure Base (c : Canonicalizer) (t : FileTree) (name : String) : Prop where
  place : start t.workingDirectory name = placeOf (c.base name)
  real : Real t (placeOf (c.base name))
  plain : ∀ s ∈ c.base name, Plain s
  folded : ∀ s ∈ c.base name, c.fold s = s
  canonicalize_eq : c.canonicalize name =
    CanonicalPath.of "/" ((resolveDots true (c.base name ++ pieces name)).map c.fold)

theorem base_of_rooted (h : ReadAlike c t name) (hRoot : name.toList.head? = some '/') :
    Base c t name := by
  have hBase : c.base name = [] := if_pos hRoot
  obtain ⟨rest, hRest⟩ : ∃ rest, name = "/" ++ rest := by
    obtain ⟨rest, hRest⟩ := List.head?_eq_some_iff.1 hRoot
    refine ⟨String.ofList rest, ?_⟩
    apply String.toList_inj.1
    simp [hRest]
  have hPieces : resolveDots true (pieces rest) = resolveDots true (pieces name) := by
    have hName : pieces name = [""] ++ pieces rest := by
      rw [← pieces_empty, ← pieces_append_slash, String.empty_append, hRest]
    rw [hName]
    rfl
  have hSlashes : slashes name = "/" ++ rest := h.slashes_eq.trans hRest
  constructor
  · rw [hBase, start_ofText, if_pos hRoot]
    rfl
  · rw [hBase]
    exact .root
  · exact fun s hs => absurd (hBase ▸ hs) List.not_mem_nil
  · exact fun s hs => absurd (hBase ▸ hs) List.not_mem_nil
  · rw [canonicalize_of_slashes (.inl rfl) hSlashes, fold_of_marks (by decide), hPieces, hBase,
      List.nil_append]

theorem base_of_relative (hc : c.Anchored) (h : ReadAlike c t name)
    (hRelative : isAbsolute name = false)
    (hDirectory : placePath t.workingDirectory = c.currentDirectory)
    (hReal : Real t t.workingDirectory) : Base c t name := by
  have hHead : name.toList.head? ≠ some '/' := by
    intro hHead
    obtain ⟨rest, hRest⟩ := List.head?_eq_some_iff.1 hHead
    rw [isAbsolute, hRest] at hRelative
    cases hRelative
  obtain ⟨segments, hPlace, hText⟩ := exists_placeOf_of_placePath_eq hReal.isStep hDirectory
  obtain ⟨hSegments, hRoot⟩ := CanonicalPath.segments_rooted fun s hs =>
    hReal.isStep s (hPlace ▸ List.mem_map_of_mem hs)
  rw [← hText] at hSegments hRoot
  have hBase : c.base name = segments := (if_neg hHead).trans hSegments
  have hJoin := Canonical.canonicalize_join hc name
  rw [hRoot, h.slashes_eq] at hJoin
  constructor
  · rw [hBase, start_ofText, if_neg hHead, hPlace]
  · rwa [hBase, ← hPlace]
  · rw [Canonicalizer.base, if_neg hHead]
    exact Canonical.plain hc
  · rw [Canonicalizer.base, if_neg hHead]
    exact Canonical.segments_folded hc
  · rw [canonicalize_relative hc (by rwa [h.slashes_eq]), hJoin, Canonicalizer.base,
      if_neg hHead]

theorem base (hc : c.Anchored) (h : ReadAlike c t name) : Base c t name := by
  rcases h.starts with hRoot | ⟨hRelative, hDirectory, hReal, -⟩
  · exact h.base_of_rooted hRoot
  · exact h.base_of_relative hc hRelative hDirectory hReal

section Walks

variable (hc : c.Anchored) (h : ReadAlike c t name)
include hc h

theorem plain_resolved : ∀ s ∈ resolveDots true (c.base name ++ stepTexts name), Plain s :=
  plain_resolveDots_of_isSegment (h.base hc).plain fun _ hs =>
    isSegment_of_mem_stepTexts (backslash_not_mem_of_canonicalName h.spelled) hs

/-- The canonical form is the path of what is left of the steps. -/
theorem text_eq :
    (c.canonicalize name).text = rooted (resolveDots true (c.base name ++ stepTexts name)) := by
  have hBase := h.base hc
  have hFolded : (resolveDots true (c.base name ++ stepTexts name)).map c.fold =
      resolveDots true (c.base name ++ stepTexts name) := by
    refine (List.map_congr_left fun s hs => ?_).trans (List.map_id _)
    rcases List.mem_append.1 (mem_of_mem_resolveDots hs) with hBefore | hHere
    · exact hBase.folded s hBefore
    · exact h.fold_of_mem s hHere
  rw [hBase.canonicalize_eq, ← resolveDots_append_stepTexts, hFolded]
  rfl

theorem locate_canonical_iff {q : Place} :
    t.locate true (c.canonicalize name).text = .ok q ↔ ∃ n ≤ linkLimit,
      Reaches t .name n [] (placeOf (resolveDots true (c.base name ++ stepTexts name))) q := by
  have hFits := h.fits_canonical
  rw [h.text_eq hc, ofText_rooted] at hFits ⊢
  exact locate_placePath_eq_ok_iff (isName_placeOf (h.plain_resolved hc)) hFits

/-- The walks to a path and to its canonical form end at one place, unless the path ends in a
dot. -/
theorem locate_iff (hSome : name ≠ "") {q : Place} :
    t.locate true name = .ok q ↔ t.locate true (c.canonicalize name).text = .ok q ∧
      ((stepTexts name).getLast? = some "." → t.node? q = some .directory) := by
  have hBase := h.base hc
  rw [locate_eq_ok_iff (mt RawText.ofText_inj.1 hSome) h.fits, hBase.place, names_ofText,
    h.locate_canonical_iff hc]
  simp only [reaches_resolveDots_iff hBase.real hBase.plain (fun s hs => isSegment_of_mem_stepTexts
    (backslash_not_mem_of_canonicalName h.spelled) hs) h.rises]
  exact ⟨fun ⟨n, hn, hTo, hEnd⟩ => ⟨⟨n, hn, hTo⟩, hEnd⟩, fun ⟨⟨n, hn, hTo⟩, hEnd⟩ =>
    ⟨n, hn, hTo, hEnd⟩⟩

/-- The empty path names no file, and its canonical form is the directory that paths start from. -/
theorem isFile_eq_of_empty (hEmpty : name = "") :
    t.isFile (c.canonicalize name).text = false := by
  subst hEmpty
  rw [Bool.eq_false_iff]
  intro hFile
  obtain ⟨q, bytes, hLocate, hNode⟩ := isFile_iff.1 hFile
  have hBase := h.base hc
  obtain ⟨n, -, hReaches⟩ := (h.locate_canonical_iff hc).1 hLocate
  rw [show stepTexts "" = [] from rfl, List.append_nil, resolveDots_of_plain hBase.plain] at hReaches
  obtain rfl := hReaches.unique hBase.real.reaches
  rcases h.starts with hRoot | ⟨-, -, -, hDirectory⟩
  · cases hRoot
  · rw [← hBase.place, show start t.workingDirectory "" = t.workingDirectory from if_neg nofun,
      hDirectory] at hNode
    cases hNode

theorem isFile_eq : t.isFile (c.canonicalize name).text = t.isFile name := by
  by_cases hEmpty : name = ""
  · rw [h.isFile_eq_of_empty hc hEmpty, hEmpty]
    rfl
  · rw [Bool.eq_iff_iff]
    constructor
    · intro hFile
      have hNoDot : (stepTexts name).getLast? ≠ some "." := fun hDot =>
        Bool.false_ne_true ((h.ends hDot).symm.trans hFile)
      obtain ⟨q, bytes, hLocate, hNode⟩ := isFile_iff.1 hFile
      exact isFile_iff.2
        ⟨q, bytes, (h.locate_iff hc hEmpty).2 ⟨hLocate, fun hDot => absurd hDot hNoDot⟩, hNode⟩
    · intro hFile
      obtain ⟨q, bytes, hLocate, hNode⟩ := isFile_iff.1 hFile
      exact isFile_iff.2 ⟨q, bytes, ((h.locate_iff hc hEmpty).1 hLocate).1, hNode⟩

end Walks

end ReadAlike

end Canonicalizer

end CompileHost
