import CompileHost.Proofs.Path.Links
import CompileHost.Proofs.Path.Readings
import CompileHost.Proofs.Store.Aliases

/-!
# Sources behind links

The source of an emitted file is not looked up by its own name, as the store knows the name of the
output only: it looks at `d/n.js` where the source is `d/n.ts`.  The two lie in the same directory,
so a link on the way there is found, however the links lead.  A source that is itself a link is not
found, as its output name is no link.

* `mem_below_iff`: the names that lead to a place of the source tree.
* `exists_hasSource`, `exists_sourceIn`: a source, and the place where its directory really is.
* `read_of_not_isLink`, `read_of_isLink`: behind a write, for a source that is no link and for one
  that is.
* `read_under_real_name`: when an emitted file is read under the real name of its source.
-/

namespace CompileHost

open CompileHost.Path CompileHost.Text FileTree

theorem Path.Plain.replace_extension {name : String} (h : Plain (name ++ ".ts")) :
    Plain (name ++ ".js") := by
  have hLength : (name ++ ".js").length = name.length + 3 := String.length_append ..
  have hNe : ∀ s : String, s.length < 3 → name ++ ".js" ≠ s := by
    rintro s hs rfl
    omega
  have hMem : ∀ c ∈ (name ++ ".js").toList, c ∈ (name ++ ".ts").toList ∨ c = 'j' := by
    intro c hc
    rw [String.toList_append, List.mem_append] at hc ⊢
    rcases hc with hName | hExtension
    · exact Or.inl (Or.inl hName)
    · have hChars : c = '.' ∨ c = 'j' ∨ c = 's' := by simpa using hExtension
      rcases hChars with rfl | rfl | rfl <;> simp
  constructor
  · exact hNe "" (by decide)
  · exact hNe "." (by decide)
  · exact hNe ".." (by decide)
  · intro hc
    rcases hMem _ hc with hOld | hNew
    · exact h.no_slash hOld
    · exact absurd hNew (by decide)
  · intro hc
    rcases hMem _ hc with hOld | hNew
    · exact h.no_backslash hOld
    · exact absurd hNew (by decide)

theorem Canonicalizer.fold_replace_extension {c : Canonicalizer} {name : String}
    (h : c.fold (name ++ ".ts") = name ++ ".ts") : c.fold (name ++ ".js") = name ++ ".js" := by
  unfold fold at h ⊢
  split
  · rfl
  · rename_i hCase
    rw [if_neg hCase, lower_eq_self_iff] at h
    rw [lower_eq_self_iff]
    intro d hd
    rw [String.toList_append] at hd
    rcases List.mem_append.1 hd with hName | hExtension
    · refine h d ?_
      rw [String.toList_append]
      exact List.mem_append_left _ hName
    · have hAll : ".js".toList.all (fun d => decide (Settled d)) = true := by decide
      exact of_decide_eq_true (List.all_eq_true.1 hAll d hExtension)

/-! ## Last names with an extension -/

namespace FileTree

variable {p : List String} {name : String}

/-- A last name stands behind a slash. -/
theorem exists_rooted_concat (p : List String) :
    ∃ stem : String, stem.toList.getLast? = some '/' ∧
      ∀ name, rooted (p ++ [name]) = stem ++ name := by
  by_cases hNil : p = []
  · subst hNil
    exact ⟨"/", rfl, fun name => congrArg ("/" ++ ·) (joined_singleton name)⟩
  · refine ⟨rooted p ++ "/", by simp, fun name => ?_⟩
    have hPath {p : List String} : rooted p = "/" ++ joined p := rfl
    rw [hPath, hPath, joined_concat hNil]
    simp only [String.append_assoc]

theorem rooted_extend (p : List String) (name extension : String) :
    rooted (p ++ [name ++ extension]) = rooted (p ++ [name]) ++ extension := by
  obtain ⟨stem, -, hStem⟩ := exists_rooted_concat p
  rw [hStem, hStem, String.append_assoc]

/-- An end without a slash belongs to the last name. -/
theorem exists_of_rooted_eq {base extension : String}
    (hPath : rooted (p ++ [name]) = base ++ extension) (hSlash : '/' ∉ extension.toList) :
    ∃ first, name = first ++ extension ∧ base = rooted (p ++ [first]) := by
  obtain ⟨stem, hEnd, hStem⟩ := exists_rooted_concat p
  have hChars : stem.toList ++ name.toList = base.toList ++ extension.toList := by
    rw [← String.toList_append, ← String.toList_append, ← hStem, hPath]
  rcases List.append_eq_append_iff.1 hChars with ⟨first, hBase, hName⟩ | ⟨first, hFront, hRest⟩
  · refine ⟨String.ofList first, ?_, ?_⟩
    · apply String.toList_inj.1
      rw [hName, String.toList_append, String.toList_ofList]
    · apply String.toList_inj.1
      rw [hStem, hBase, String.toList_append, String.toList_ofList]
  -- otherwise the slash in front of the name belongs to the end, unless nothing is left over
  · cases first using List.reverseRecOn with
    | nil =>
      rw [List.append_nil] at hFront
      refine ⟨"", ?_, ?_⟩
      · rw [String.empty_append]
        exact String.toList_inj.1 hRest.symm
      · rw [hStem, String.append_empty]
        exact String.toList_inj.1 hFront.symm
    | append_singleton first last =>
      rw [hFront, ← List.append_assoc, List.getLast?_concat] at hEnd
      obtain rfl := Option.some.inj hEnd
      refine absurd ?_ hSlash
      rw [hRest]
      simp

end FileTree

/-! ## Places of the source tree -/

namespace Layout

variable {l : Layout} {p : List String} {name base : String}

/-- A name that stands in canonical paths. -/
def Admits (l : Layout) (s : String) : Prop :=
  Plain s ∧ l.canonicalizer.fold s = s

theorem Admits.isName {s : String} (h : l.Admits s) : IsName s :=
  h.1.isName

theorem canonical_rooted (hl : l.Proper) (hRoot : l.sourceRoot.root = "/")
    (hNames : ∀ s ∈ p, l.Admits s) : l.canonicalizer.Canonical ⟨rooted p⟩ := by
  have hFold : l.canonicalizer.fold "/" = "/" := by
    rw [← hRoot]
    exact hl.sourceRoot.root_folded
  exact Canonicalizer.canonical_of (Or.inl rfl) (fun s hs => (hNames s hs).1) hFold
    fun s hs => (hNames s hs).2

theorem mem_below_iff (hl : l.Proper) (hRoot : l.sourceRoot.root = "/")
    (hSteps : ∀ s ∈ p, IsStep (s : RawText)) :
    ⟨rooted p⟩ ∈ l.below l.sourceRoot ↔
      (∀ s ∈ p, l.Admits s) ∧ l.sourceRoot.segments <+: p := by
  obtain ⟨hSegments, hPlaceRoot⟩ := CanonicalPath.segments_rooted hSteps
  constructor
  · rintro ⟨hPath, -, hBelow⟩
    have hCanonical : l.canonicalizer.Canonical ⟨rooted p⟩ :=
      (Canonicalizer.canonical_iff hl.anchored).2 hPath
    have hPlain := hCanonical.plain
    have hFolded := hCanonical.segments_folded
    rw [hSegments] at hPlain hFolded hBelow
    exact ⟨fun s hs => ⟨hPlain s hs, hFolded s hs⟩, hBelow⟩
  · rintro ⟨hAdmits, hBelow⟩
    have hCanonical := canonical_rooted hl hRoot hAdmits
    refine ⟨⟨_, hCanonical.canonicalize_text⟩, ?_, ?_⟩
    · rw [hPlaceRoot, hRoot]
    · rwa [hSegments]

theorem mem_below_concat (hl : l.Proper) (hRoot : l.sourceRoot.root = "/")
    (hAdmits : ∀ s ∈ p, l.Admits s) (hName : l.Admits name)
    (hBelow : l.sourceRoot.segments <+: p) :
    ⟨rooted (p ++ [name])⟩ ∈ l.below l.sourceRoot := by
  have hAll : ∀ s ∈ p ++ [name], l.Admits s :=
    List.forall_mem_append.2 ⟨hAdmits, List.forall_mem_singleton.2 hName⟩
  exact (mem_below_iff hl hRoot fun s hs => (hAll s hs).isName.toIsStep).2
    ⟨hAll, hBelow.trans (List.prefix_append _ _)⟩

/-- A source, by its directory and its name, and the file that it is emitted as. -/
structure HasSource (l : Layout) (directory : List String) (name : String) : Prop where
  admits : ∀ s ∈ directory, l.Admits s
  source : l.Admits (name ++ ".ts")
  emitted : l.Admits (name ++ ".js")
  below : l.sourceRoot.segments <+: directory

namespace HasSource

variable {directory : List String} (h : l.HasSource directory name)
include h

theorem isName_directory : ∀ s ∈ placeOf directory, IsName s :=
  isName_placeOf fun s hs => (h.admits s hs).1

theorem isName : ∀ s ∈ placeOf (directory ++ [name ++ ".ts"]), IsName s := by
  rw [placeOf_append]
  exact List.forall_mem_append.2
    ⟨h.isName_directory, List.forall_mem_singleton.2 h.source.isName⟩

end HasSource

theorem exists_hasSource (hl : l.Proper) (hRoot : l.sourceRoot.root = "/")
    (hSource : ⟨base ++ ".ts"⟩ ∈ l.below l.sourceRoot) (hBelow : ⟨base ++ ".ts"⟩ ≠ l.sourceRoot) :
    ∃ directory name, base = rooted (directory ++ [name]) ∧ l.HasSource directory name := by
  have hCanonical : l.canonicalizer.Canonical ⟨base ++ ".ts"⟩ :=
    (Canonicalizer.canonical_iff hl.anchored).2 hSource.1
  have hText := hCanonical.text_eq
  rw [hSource.2.1, hRoot] at hText
  have hAdmits : ∀ s ∈ (⟨base ++ ".ts"⟩ : CanonicalPath).segments, l.Admits s := fun s hs =>
    ⟨hCanonical.plain s hs, hCanonical.segments_folded s hs⟩
  have hPrefix := hSource.2.2
  generalize hp : (⟨base ++ ".ts"⟩ : CanonicalPath).segments = p at hText hAdmits hPrefix
  rcases List.eq_nil_or_concat p with rfl | ⟨directory, last, rfl⟩
  · rw [List.prefix_nil] at hPrefix
    exact absurd (hCanonical.ext hl.sourceRoot hSource.2.1 (hp.trans hPrefix.symm)) hBelow
  · rw [List.concat_eq_append] at hText hAdmits hPrefix hp
    obtain ⟨name, rfl, hBase⟩ := exists_of_rooted_eq hText.symm (by decide)
    have hLast := hAdmits (name ++ ".ts") (by simp)
    refine ⟨directory, name, hBase, fun s hs => hAdmits s (List.mem_append_left _ hs), hLast,
      ⟨hLast.1.replace_extension, Canonicalizer.fold_replace_extension hLast.2⟩, ?_⟩
    rcases List.prefix_concat_iff.1 hPrefix with hAll | hAbove
    · exact absurd (hCanonical.ext hl.sourceRoot hSource.2.1 (hp.trans hAll.symm)) hBelow
    · exact hAbove

/-- Emitted files have the same name only if their sources do. -/
theorem HasSource.eq_of_toOutput (hl : l.Proper) (hRoot : l.sourceRoot.root = "/")
    {directory : List String} (hHas : l.HasSource directory name)
    (hSource : ⟨base ++ ".ts"⟩ ∈ l.below l.sourceRoot) (hBelow : ⟨base ++ ".ts"⟩ ≠ l.sourceRoot)
    (hSame : l.toOutput (base ++ ".js") = l.toOutput (rooted (directory ++ [name ++ ".js"]))) :
    base ++ ".ts" = rooted (directory ++ [name ++ ".ts"]) := by
  obtain ⟨baseDirectory, baseName, rfl, hBase⟩ := exists_hasSource hl hRoot hSource hBelow
  have hBaseBelow := mem_below_concat hl hRoot hBase.admits hBase.emitted hBase.below
  have hOther := mem_below_concat hl hRoot hHas.admits hHas.emitted hHas.below
  rw [← rooted_extend] at hSame
  have hText := congrArg CanonicalPath.text (hl.toOutput_inj hBaseBelow hOther hSame)
  dsimp only at hText
  rw [rooted_extend, rooted_extend] at hText
  rw [rooted_extend, (String.append_left_inj _).1 hText]

end Layout

/-! ## What is read under the real name -/

theorem dirname_rooted (p : List String) {name : String} (hName : IsName name) :
    dirname (rooted (p ++ [name])) = rooted p :=
  dirname_of_splitLast (LinkWalk.splitLast_rooted p hName) (text_ne_empty (Or.inl rfl) p)

namespace OutputStore

variable {l : Layout} {t : FileTree} {directory real : List String} {name : String}

/-- A source that exists, and the place where its directory really is. -/
structure SourceIn (l : Layout) (t : FileTree) (directory : List String) (name : String)
    (real : List String) : Prop extends l.HasSource directory name where
  reaches : ∃ n ≤ linkLimit, Reaches t .path n [] (placeOf directory) (placeOf real)
  fits : Fits (placePath (placeOf (directory ++ [name ++ ".ts"])))
  backslash : ∀ s ∈ real, '\\' ∉ s.toList

namespace SourceIn

section Names

variable (h : SourceIn l t directory name real)
include h

theorem fits_directory : Fits (placePath (placeOf directory)) := by
  have hFits := h.fits
  rw [placeOf_append] at hFits
  exact hFits.of_concat

theorem real_directory : Real t (placeOf real) := by
  obtain ⟨n, -, hReaches⟩ := h.reaches
  exact hReaches.real .root fun s hs => (h.isName_directory s hs).toIsStep

/-- The real path of the source names it in the real directory, unless the source is a link. -/
theorem exists_realPath {path : String}
    (hReal : t.realPath (rooted (directory ++ [name ++ ".ts"])) = .ok (path : RawText)) :
    ∃ place, path = rooted place ∧ Real t (placeOf place) ∧
      (t.isLink (rooted (directory ++ [name ++ ".ts"])) = true ∧
          (∃ target, t.node? (placeOf (real ++ [name ++ ".ts"])) = some (.link target)) ∨
        t.isLink (rooted (directory ++ [name ++ ".ts"])) = false ∧
          place = real ++ [name ++ ".ts"]) := by
  rw [ofText_rooted, realPath_placePath_iff h.isName h.fits.1] at hReal
  obtain ⟨n, hn, q, hReaches, hPath⟩ := hReal
  have hThere : Real t q := hReaches.real .root fun s hs => (h.isName s hs).toIsStep
  obtain ⟨place, rfl, rfl⟩ := exists_placeOf_of_placePath_eq hThere.isStep hPath
  refine ⟨place, rfl, hThere, ?_⟩
  have hLocate := hReaches.by_name.locate h.isName hn h.fits
  rw [ofText_rooted, placeOf_append, placeOf_append]
  rw [placeOf_append] at hLocate
  obtain ⟨r, hAbove, hCases⟩ := locate_concat h.isName_directory h.source.isName hLocate
  obtain ⟨m, hm, hTo⟩ := h.reaches
  obtain rfl : placeOf real = r := by
    rw [hTo.by_name.locate h.isName_directory hm h.fits_directory] at hAbove
    exact Except.ok.inj hAbove
  refine hCases.imp id fun ⟨hNoLink, hPlace⟩ => ⟨hNoLink, placeOf_inj ?_⟩
  rw [hPlace, placeOf_append]
  rfl

/-- What a write reaches. -/
theorem mem_writtenPaths_iff (hl : l.Proper) (hRoot : l.sourceRoot.root = "/")
    (hLinked : LinkWalk.linked? t (rooted (directory ++ [name ++ ".js"])) = none)
    {q : CanonicalPath} :
    q ∈ writtenPaths l t (l.toOutput (rooted (directory ++ [name ++ ".js"]))).text ↔
      q = l.toOutput (rooted (directory ++ [name ++ ".js"])) ∨
        q = l.toOutput (rooted (real ++ [name ++ ".js"])) := by
  obtain ⟨n, hLinks, hReaches⟩ := h.reaches
  have hAll : ∀ s ∈ directory ++ [name ++ ".js"], l.Admits s :=
    List.forall_mem_append.2 ⟨h.admits, List.forall_mem_singleton.2 h.emitted⟩
  have hCanonical := Layout.canonical_rooted hl hRoot hAll
  have hSource := Layout.mem_below_concat hl hRoot h.admits h.emitted h.below
  have hOutput := hl.toOutput_mem_below hSource
  have hResolved := Canonicalizer.resolveLinks_of_reaches h.isName_directory h.emitted.isName
    hReaches hLinks h.fits_directory h.backslash hCanonical.canonicalize_text hLinked
  have hRealOutput : l.realOutput t (l.toOutput (rooted (directory ++ [name ++ ".js"]))).text =
      l.toOutput (rooted (real ++ [name ++ ".js"])) := by
    rw [Layout.realOutput, Layout.realSource, hl.toSource_toOutput hSource, hResolved]
    exact (hl.toOutput_of_canonicalize rfl).symm
  have hSpelling := hl.canonicalize_toOutput (rooted (directory ++ [name ++ ".js"]))
  rw [mem_writtenPaths_of_below hl (by rwa [hSpelling]), hSpelling, hRealOutput]

end Names

section Write

variable {realBase : String} (h : SourceIn l t directory name real) (hl : l.Proper)
  (hRoot : l.sourceRoot.root = "/")
  (hReal : t.realPath (rooted (directory ++ [name ++ ".ts"])) =
    .ok ((realBase ++ ".ts" : String) : RawText))
  (hLinked : LinkWalk.linked? t (rooted (directory ++ [name ++ ".js"])) = none)
include h hl hRoot hReal hLinked

/-- The emitted file of a source that is no link is read under the real name of the source. -/
theorem read_of_not_isLink
    (hNoLink : t.isLink (rooted (directory ++ [name ++ ".ts"])) = false)
    (store : OutputStore) (text : String) :
    (store.write l t (l.toOutput (rooted (directory ++ [name ++ ".js"]))).text text).1.read? l
      (l.toOutput (realBase ++ ".js")).text = some text := by
  obtain ⟨place, hPath, -, ⟨hLink, -⟩ | ⟨-, rfl⟩⟩ := h.exists_realPath hReal
  · rw [hNoLink] at hLink
    cases hLink
  · rw [rooted_extend] at hPath
    obtain rfl := (String.append_left_inj _).1 hPath
    rw [read?, hl.canonicalize_toOutput, ← rooted_extend]
    exact get?_write_of_mem ((h.mem_writtenPaths_iff hl hRoot hLinked).2 (Or.inr rfl)) store text

/-- The emitted file of a source that is a link is not read under the real name of the source. -/
theorem read_of_isLink (hLink : t.isLink (rooted (directory ++ [name ++ ".ts"])) = true)
    (hSource : ⟨realBase ++ ".ts"⟩ ∈ l.below l.sourceRoot)
    (hBelow : ⟨realBase ++ ".ts"⟩ ≠ l.sourceRoot) (hIn : ⟨rooted real⟩ ∈ l.below l.sourceRoot)
    (store : OutputStore) (text : String) :
    (store.write l t (l.toOutput (rooted (directory ++ [name ++ ".js"]))).text text).1.read? l
      (l.toOutput (realBase ++ ".js")).text = store.read? l (l.toOutput (realBase ++ ".js")).text := by
  obtain ⟨place, hPath, hThere, ⟨-, target, hNode⟩ | ⟨hNoLink, -⟩⟩ := h.exists_realPath hReal
  · have hSteps : ∀ s ∈ real, IsStep (s : RawText) := fun s hs =>
      h.real_directory.isStep s (List.mem_map_of_mem hs)
    obtain ⟨hAdmits, hAbove⟩ := (Layout.mem_below_iff hl hRoot hSteps).1 hIn
    have hHas : l.HasSource real name := ⟨hAdmits, h.source, h.emitted, hAbove⟩
    rw [read?, read?, hl.canonicalize_toOutput]
    -- a name that is written to is that of the source itself, which is a link, and not a real name
    refine get?_write_of_not_mem ?_ store text
    rw [h.mem_writtenPaths_iff hl hRoot hLinked]
    rintro (hOwn | hOther)
    · have hSame := h.toHasSource.eq_of_toOutput hl hRoot hSource hBelow hOwn
      rw [← hSame, hPath, ofText_rooted, hThere.isLink_eq_false] at hLink
      cases hLink
    · have hSame := hHas.eq_of_toOutput hl hRoot hSource hBelow hOther
      have hNames : ∀ s ∈ placeOf (real ++ [name ++ ".ts"]), IsStep s :=
        fun s hs => (hHas.isName s hs).toIsStep
      have hPaths : placePath (placeOf place) = placePath (placeOf (real ++ [name ++ ".ts"])) := by
        rw [← ofText_rooted, ← ofText_rooted, ← hPath, hSame]
      rw [← placePath_inj hThere.isStep hNames hPaths] at hNode
      exact hThere.not_link target hNode
  · rw [hLink] at hNoLink
    cases hNoLink

end Write

end SourceIn

theorem exists_sourceIn (hHas : l.HasSource directory name)
    (hExists : t.exists? (rooted (directory ++ [name ++ ".ts"])) = true) {realDirectory : String}
    (hDirectory : t.realPath (rooted directory) = .ok (realDirectory : RawText))
    (hBackslash : '\\' ∉ realDirectory.toList) :
    ∃ real, realDirectory = rooted real ∧ SourceIn l t directory name real := by
  rw [ofText_rooted, exists?_iff hHas.isName] at hExists
  obtain ⟨place, hLocate⟩ := hExists
  have hFits := fits_of_locate hLocate
  have hAbove : Fits (placePath (placeOf directory)) := by
    rw [placeOf_append] at hFits
    exact hFits.of_concat
  rw [ofText_rooted, realPath_placePath_iff hHas.isName_directory hAbove.1] at hDirectory
  obtain ⟨n, hn, q, hReaches, hPath⟩ := hDirectory
  have hReal : Real t q := hReaches.real .root fun s hs => (hHas.isName_directory s hs).toIsStep
  obtain ⟨real, rfl, rfl⟩ := exists_placeOf_of_placePath_eq hReal.isStep hPath
  exact ⟨real, rfl, hHas, ⟨n, hn, hReaches⟩, hFits,
    LinkWalk.backslash_not_mem_rooted_iff.1 hBackslash⟩

/-- **Files behind links.**  A source is there, in a source tree below `/`, and no link to anything
stands at the place that its output name stands for in that tree.  If it is not a link itself,
however many links are on the way to it, then behind a write of the emitted file that comes back its
text is read under the real name of the source.  If it is a link, and everything lies in the source
tree, the write leaves what is read under the real name as it was. -/
theorem read_under_real_name (hl : l.Proper) (hRoot : l.sourceRoot.root = "/")
    {base realBase realDirectory : String} (hSource : ⟨base ++ ".ts"⟩ ∈ l.below l.sourceRoot)
    (hBelow : ⟨base ++ ".ts"⟩ ≠ l.sourceRoot) (hExists : t.exists? (base ++ ".ts" : String) = true)
    (hReal : t.realPath (base ++ ".ts" : String) = .ok ((realBase ++ ".ts" : String) : RawText))
    (hDirectory : t.realPath (dirname (base ++ ".ts")) = .ok (realDirectory : RawText))
    (hBackslash : '\\' ∉ realDirectory.toList)
    (hLinked : LinkWalk.linked? t (base ++ ".js") = none) (store : OutputStore) (text : String) :
    let after := (store.write l t (l.toOutput (base ++ ".js")).text text).1
    let realName := (l.toOutput (realBase ++ ".js")).text
    (t.isLink (base ++ ".ts" : String) = false → after.read? l realName = some text) ∧
    (t.isLink (base ++ ".ts" : String) = true → ⟨realBase ++ ".ts"⟩ ∈ l.below l.sourceRoot →
      ⟨realBase ++ ".ts"⟩ ≠ l.sourceRoot → ⟨realDirectory⟩ ∈ l.below l.sourceRoot →
        after.read? l realName = store.read? l realName) := by
  obtain ⟨directory, name, rfl, hHas⟩ := l.exists_hasSource hl hRoot hSource hBelow
  simp only [← rooted_extend] at hExists hReal hDirectory hLinked ⊢
  rw [dirname_rooted _ hHas.source.isName] at hDirectory
  obtain ⟨real, rfl, hIn⟩ := exists_sourceIn hHas hExists hDirectory hBackslash
  refine ⟨fun hNoLink => ?_, fun hLink hRealSource hRealBelow hRealIn => ?_⟩
  · exact hIn.read_of_not_isLink hl hRoot hReal hLinked hNoLink store text
  · exact hIn.read_of_isLink hl hRoot hReal hLinked hLink hRealSource hRealBelow hRealIn store text

/-- A directory with a file in it, a link to the directory, and a link to the file. -/
theorem read_under_real_name_c :
    let l := Layout.sideBySide
    let t : FileTree := ⟨[(["src"], .directory), (["src", "real"], .directory),
      (["src", "link"], .link "real"), (["src", "real", "c.ts"], .file []),
      (["src", "real", "d.ts"], .link "c.ts")], []⟩
    let write path := (OutputStore.empty.write l t (l.toOutput path).text "one").1
    l.Proper ∧ t.realPath ("/src/link/c" ++ ".ts") = .ok ("/src/real/c" ++ ".ts") ∧
      t.realPath ("/src/link/d" ++ ".ts") = .ok ("/src/real/c" ++ ".ts") ∧
      (write ("/src/link/c" ++ ".js")).read? l (l.toOutput ("/src/real/c" ++ ".js")).text =
        some "one" ∧
      (write ("/src/link/d" ++ ".js")).read? l (l.toOutput ("/src/real/c" ++ ".js")).text =
        none := by
  intro l t write
  have hl : l.Proper := Layout.proper_sideBySide
  have hRoot : l.sourceRoot.root = "/" := by decide +kernel
  have hBelow : ∀ path, path ∈ ["/src/link/c" ++ ".ts", "/src/link/d" ++ ".ts",
      "/src/real/c" ++ ".ts", "/src/real"] →
        ⟨path⟩ ∈ l.below l.sourceRoot ∧ ⟨path⟩ ≠ l.sourceRoot := by
    intro path hPath
    have hAll : ∀ path ∈ ["/src/link/c" ++ ".ts", "/src/link/d" ++ ".ts",
        "/src/real/c" ++ ".ts", "/src/real"],
          l.canonicalize path = ⟨path⟩ ∧ (⟨path⟩ : CanonicalPath).root = l.sourceRoot.root ∧
            l.sourceRoot.segments <+: (⟨path⟩ : CanonicalPath).segments ∧
            ⟨path⟩ ≠ l.sourceRoot := by
      decide +kernel
    obtain ⟨hCanonical, hPathRoot, hPrefix, hNe⟩ := hAll path hPath
    exact ⟨⟨⟨path, hCanonical⟩, hPathRoot, hPrefix⟩, hNe⟩
  obtain ⟨hFile, hFileBelow⟩ := hBelow ("/src/link/c" ++ ".ts") (by simp)
  obtain ⟨hLink, hLinkBelow⟩ := hBelow ("/src/link/d" ++ ".ts") (by simp)
  obtain ⟨hReal, hRealBelow⟩ := hBelow ("/src/real/c" ++ ".ts") (by simp)
  obtain ⟨hDirectory, -⟩ := hBelow "/src/real" (by simp)
  have hFileReal : t.realPath ("/src/link/c" ++ ".ts") = .ok ("/src/real/c" ++ ".ts") := by
    decide +kernel
  have hLinkReal : t.realPath ("/src/link/d" ++ ".ts") = .ok ("/src/real/c" ++ ".ts") := by
    decide +kernel
  have hFileDirectory : t.realPath (dirname ("/src/link/c" ++ ".ts")) = .ok "/src/real" := by
    decide +kernel
  have hLinkDirectory : t.realPath (dirname ("/src/link/d" ++ ".ts")) = .ok "/src/real" := by
    decide +kernel
  obtain ⟨hRead, -⟩ := read_under_real_name hl hRoot hFile hFileBelow (by decide +kernel)
    hFileReal hFileDirectory (by decide) (by decide +kernel) OutputStore.empty "one"
  obtain ⟨-, hKept⟩ := read_under_real_name hl hRoot hLink hLinkBelow (by decide +kernel)
    hLinkReal hLinkDirectory (by decide) (by decide +kernel) OutputStore.empty "one"
  refine ⟨hl, hFileReal, hLinkReal, hRead (by decide +kernel), ?_⟩
  exact (hKept (by decide +kernel) hReal hRealBelow hDirectory).trans (get?_empty _)

/-- A source that is a link to a file next to it is not read under the name of that file. -/
theorem linked_file_not_read :
    let l := Layout.sideBySide
    let t : FileTree := ⟨[(["src"], .directory), (["src", "real.ts"], .file []),
      (["src", "link.ts"], .link "real.ts")], []⟩
    ⟨"/src/link.ts"⟩ ∈ l.below l.sourceRoot ∧ t.realPath "/src/link.ts" = .ok "/src/real.ts" ∧
      (OutputStore.empty.write l t (l.toOutput "/src/link.js").text "one").1.read? l
        (l.toOutput "/src/real.js").text = none := by
  intro l t
  have hl : l.Proper := Layout.proper_sideBySide
  have hLink : ⟨"/src/link.js"⟩ ∈ l.below l.sourceRoot :=
    ⟨⟨"/src/link.js", by decide +kernel⟩, by decide +kernel, by decide +kernel⟩
  have hReal : ⟨"/src/real.js"⟩ ∈ l.below l.sourceRoot :=
    ⟨⟨"/src/real.js", by decide +kernel⟩, by decide +kernel, by decide +kernel⟩
  have hResolved : l.canonicalizer.resolveLinks t "/src/link.js" = ⟨"/src/link.js"⟩ := by
    decide +kernel
  have hOneName : l.realOutput t (l.toOutput "/src/link.js").text = l.toOutput "/src/link.js" := by
    have hBack := hl.toSource_toOutput hLink
    dsimp only at hBack
    rw [Layout.realOutput, Layout.realSource, hBack, hResolved]
  have hOutput : l.canonicalize (l.toOutput "/src/link.js").text ∈ l.below l.outputRoot := by
    rw [hl.canonicalize_toOutput]
    exact hl.toOutput_mem_below hLink
  have hSpared : l.toOutput "/src/real.js" ∉ writtenPaths l t (l.toOutput "/src/link.js").text := by
    rw [mem_writtenPaths_of_below hl hOutput, hOneName, hl.canonicalize_toOutput, or_self]
    intro hSame
    exact absurd (hl.toOutput_inj hReal hLink hSame) (by decide)
  refine ⟨⟨⟨"/src/link.ts", by decide +kernel⟩, by decide +kernel, by decide +kernel⟩,
    by decide +kernel, ?_⟩
  rw [read?, hl.canonicalize_toOutput, get?_write_of_not_mem hSpared, get?_empty]

end OutputStore

end CompileHost
