import CompileHost.Proofs.Host.Artifacts
import CompileHost.Proofs.Path.Readings

/-!
# Sources and probes

A host reads a source at the canonical form of its name, and answers questions about files for
names as they are.  An engine that asks whether a file exists before it asks for the source gets
one answer to both if it asks by canonical paths, or by names that are read alike.  What can be read
and is no file, such as a device, is a source that does not exist as a file.

* `isSome_sourceFile`: when a source is found.
* `source_iff_exists`: what the two answers have to do with each other.
* `source_not_as_exists`: names for which they are not the same.
-/

namespace CompileHost.Host

open CompileHost.FileTree CompileHost.Path

variable {P N : Type} {h : Host P N} {name : String}

/-- A source that is not on record is found if its canonical path can be read. -/
theorem isSome_sourceFile (hLibrary : name ≠ defaultLibraryFile)
    (hNew : h.cache.get? (h.layout.canonicalize name) = none) (w : World) :
    (answer w h (.sourceFile name)).2.isSome =
      (w.tree.read? (h.layout.canonicalize name).text).isSome := by
  rw [answer, resolveFile_of_get?_none hLibrary hNew, addFile]
  dsimp only
  cases w.tree.read? (h.layout.canonicalize name).text <;> rfl

/-- What can be read is a file, if it is not something special. -/
theorem isSome_read? {t : FileTree} {path : RawText}
    (hOrdinary : ∀ bytes, t.lookup path ≠ .ok (.special (some bytes))) :
    (t.read? path).isSome = t.isFile path := by
  unfold read? isFile
  cases hLookup : t.lookup path with
  | error fault => rfl
  | ok node =>
    cases node with
    | special bytes =>
      cases bytes with
      | none => rfl
      | some bytes => exact absurd hLookup (hOrdinary bytes)
    | _ => rfl

/-- **Sources and probes.**  A source that is not on record, and not something special by its
canonical path, is found exactly if there is a file by its canonical path, and, if the canonicalizer
and the file tree read its name alike, exactly if there is a file by its name. -/
theorem source_iff_exists (hl : h.layout.Proper) (hLibrary : name ≠ defaultLibraryFile)
    (hNew : h.cache.get? (h.layout.canonicalize name) = none) (w : World)
    (hOrdinary : ∀ bytes,
      w.tree.lookup (h.layout.canonicalize name).text ≠ .ok (.special (some bytes))) :
    (answer w h (.sourceFile name)).2.isSome =
        (answer w h (.fileExists (h.layout.canonicalize name).text)).2 ∧
      (h.layout.canonicalizer.ReadAlike w.tree name →
        (answer w h (.sourceFile name)).2.isSome = (answer w h (.fileExists name)).2) := by
  have hSource := (isSome_sourceFile hLibrary hNew w).trans (isSome_read? hOrdinary)
  exact ⟨hSource, fun hAlike => hSource.trans (hAlike.isFile_eq hl.anchored)⟩

/-- A way over a link, then over a directory behind it and back. -/
theorem source_iff_exists_over_directory :
    let w : World := ⟨⟨[(["w"], .directory), (["w", "l"], .link "../e"), (["e"], .directory),
      (["e", "d"], .directory), (["e", "a.ts"], .file [])], ["w"]⟩, ⟨[]⟩⟩
    let s : Settings := { hotReload := false, caseSensitive := some false }
    let name := "./l/d/../a.ts"
    ∃ h, Host.build w s Engine.echo [] [] .basic = .ok h ∧ h.layout.Proper ∧
      name ≠ defaultLibraryFile ∧ h.cache.get? (h.layout.canonicalize name) = none ∧
      h.layout.canonicalizer.ReadAlike w.tree name ∧
      (answer w h (.sourceFile name)).2.isSome = (answer w h (.fileExists name)).2 ∧
      (answer w h (.fileExists name)).2 = true := by
  intro w s name
  let c : Canonicalizer := ⟨"/w", false⟩
  obtain ⟨h, hBuilt, hCanonicalizer⟩ : ∃ h, Host.build w s Engine.echo [] [] .basic = .ok h ∧
      h.layout.canonicalizer = c :=
    ⟨_, rfl, congrArg₂ Canonicalizer.mk (by decide +kernel) rfl⟩
  have hLibrary : name ≠ defaultLibraryFile := by decide
  have hNew := (isFresh_build hBuilt (h.layout.canonicalize name)).1
  have hDirectory : Real w.tree (placeOf ["w"]) := .entry .root rfl (by decide) rfl nofun
  have hOver : OverDirectory w.tree ["w", "l"] "d" := by
    have hWalk : w.tree.walk .name true linkLimit [] (placeOf ["w", "l"]) = .ok (placeOf ["e"]) := by
      decide +kernel
    obtain ⟨n, -, hReaches⟩ := reaches_of_walk hWalk
    exact ⟨n, placeOf ["e"], hReaches, seeks_of_isEntryName (by decide) (by decide),
      by decide⟩
  have hAlike : c.ReadAlike w.tree name := {
    spelled := by decide +kernel
    starts := .inr ⟨by decide, by decide +kernel, hDirectory, by decide⟩
    rises := by
      intro before after hSplit above nearest hResolved
      have hSteps : stepTexts name = [".", "l", "d"] ++ ".." :: ["a.ts"] := by decide +kernel
      have hBefore : resolveDots true (c.base name ++ [".", "l", "d"]) = ["w", "l"] ++ ["d"] := by
        decide +kernel
      rw [hSteps, List.append_cons_inj_of_notMem (by decide) (by decide)] at hSplit
      obtain ⟨rfl, -, rfl⟩ := hSplit
      obtain ⟨rfl, hNearest⟩ := List.append_inj' (hBefore.symm.trans hResolved) rfl
      cases hNearest
      exact hOver
    ends := fun hDot => absurd hDot (by decide +kernel)
    fits := ⟨by decide, by decide⟩
    fits_canonical := ⟨by decide +kernel, by decide +kernel⟩ }
  rw [← hCanonicalizer] at hAlike
  have hFile : w.tree.lookup (h.layout.canonicalize name).text = .ok (.file []) := by
    rw [Layout.canonicalize, hCanonicalizer]
    decide +kernel
  have hAnswers := source_iff_exists (proper_build hBuilt) hLibrary hNew w fun bytes hSpecial => by
    rw [hFile] at hSpecial
    cases hSpecial
  have hExists : (answer w h (.fileExists name)).2 = w.tree.isFile name := rfl
  refine ⟨h, hBuilt, proper_build hBuilt, hLibrary, hNew, hAlike, hAnswers.2 hAlike, ?_⟩
  rw [hExists]
  decide +kernel

/-- A name from another directory, a way back over a link and one over nothing, a drive, a
backslash, an upper-case letter, a slash at the end, and a device. -/
theorem source_not_as_exists :
    let w : World := ⟨⟨[(["tmp"], .directory), (["tmp", "tsfs"], .directory),
      (["tmp", "tsfs", "c:"], .directory), (["tmp", "tsfs", "b.ts"], .file []),
      (["tmp", "tsfs", "w"], .directory), (["tmp", "tsfs", "w", "a.ts"], .file []),
      (["tmp", "tsfs", "w", "d"], .directory), (["tmp", "tsfs", "w", "d", "e"], .directory),
      (["tmp", "tsfs", "w", "d", "b.ts"], .file []),
      (["tmp", "tsfs", "w", "l"], .link "d/e"), (["dev"], .directory),
      (["dev", "null"], .special (some []))], ["tmp", "tsfs"]⟩, ⟨[]⟩⟩
    let s : Settings := {
      currentDirectory := "/tmp/tsfs/w", hotReload := false, caseSensitive := some false }
    let names := ["a.ts", "/tmp/tsfs/w/l/../b.ts", "/tmp/tsfs/w/no/../a.ts", "c:/../b.ts",
      "/tmp/tsfs/w\\a.ts", "/tmp/tsfs/w/A.ts", "/tmp/tsfs/w/a.ts/", "/dev/null"]
    ∃ h, Host.build w s Engine.echo [] [] .basic = .ok h ∧
      ∀ name ∈ names, name ≠ defaultLibraryFile ∧
        h.cache.get? (h.layout.canonicalize name) = none ∧
        (answer w h (.sourceFile name)).2.isSome ≠ (answer w h (.fileExists name)).2 := by
  intro w s names
  refine ⟨_, rfl, ?_⟩
  decide +kernel

end CompileHost.Host
