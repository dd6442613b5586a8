import CompileHost.Path.Links
import CompileHost.Proofs.FileTree.Walk
import CompileHost.Proofs.Path.Peeling
import Mathlib.Data.List.Induction

/-!
# Where links are replaced

Along a path that exists, the walk that replaces links arrives at the place that the path leads to:
it meets at most one link on its way up, as the real path behind that link has no links on it.

* `run_of_real`: a path without links is taken apart name by name.
* `run_of_reaches`: a path that leads to a place gives way to the path of that place.
* `resolveLinks_of_reaches`: what comes of a name that is no link, in a directory that exists.
-/

namespace CompileHost

open CompileHost.Path CompileHost.Text FileTree

namespace LinkWalk

variable {t : FileTree} {p r : List String} {name : String} {n : Nat}

theorem splitLast_rooted (p : List String) (hName : IsName name) :
    splitLast (rooted (p ++ [name])) = some (rooted p, name) := by
  obtain ⟨hSome, hSlash⟩ := isStep_ofText_iff.1 hName.toIsStep
  exact splitLast_text_concat (Or.inl rfl) p hSome hSlash

/-- A path from the root does not begin with `//?/`. -/
theorem plainPath_rooted (hSteps : ∀ s ∈ p, IsStep (s : RawText)) :
    plainPath (rooted p) = rooted p := by
  unfold plainPath
  split
  · rename_i rest hStrip
    exfalso
    have hBegins :
        rooted p = "" ++ "/" ++ ("" ++ "/" ++ String.ofList ('?' :: '/' :: rest)) := by
      apply String.toList_inj.1
      rw [stripStart?_eq_some_iff.1 hStrip]
      simp
    have hPath : rooted p = "" ++ "/" ++ joined p := rfl
    have hPieces := congrArg pieces hBegins
    rw [hPath, pieces_append_slash, pieces_append_slash, pieces_append_slash] at hPieces
    by_cases hNil : p = []
    · subst hNil
      have hLength := congrArg List.length hPieces
      simp [pieces_empty, joined, joinWith] at hLength
      exact absurd hLength (pieces_ne_nil _)
    · rw [pieces_joined hNil fun s hs => (isStep_ofText_iff.1 (hSteps s hs)).2] at hPieces
      have hMem : "" ∈ p := by
        rw [List.append_cancel_left hPieces]
        exact List.mem_cons_self
      exact (isStep_ofText_iff.1 (hSteps "" hMem)).1 rfl
  · rfl

theorem backslash_not_mem_rooted_iff :
    '\\' ∉ (rooted p).toList ↔ ∀ s ∈ p, '\\' ∉ s.toList := by
  have hPath : rooted p = "/" ++ joined p := rfl
  rw [hPath, String.toList_append, List.mem_append, not_or]
  constructor
  · rintro ⟨-, hJoined⟩ s hs hMem
    rw [joined, String.toList_ofList] at hJoined
    exact hJoined (mem_joinWith_of_mem (List.mem_map_of_mem hs) hMem)
  · exact fun hBackslash => ⟨by decide, not_mem_joined (by decide) hBackslash⟩

theorem slashes_rooted (hBackslash : ∀ s ∈ p, '\\' ∉ s.toList) : slashes (rooted p) = rooted p :=
  slashes_eq_self (backslash_not_mem_rooted_iff.2 hBackslash)

/-- The path of a place is looked up as it is if its names are texts without backslashes. -/
theorem plainPath_slashes_placePath (hSteps : ∀ s ∈ p, IsStep (s : RawText))
    (hBackslash : ∀ s ∈ p, '\\' ∉ s.toList) :
    plainPath (slashes (placePath (placeOf p)).text) = rooted p := by
  rw [← ofText_rooted, RawText.text_ofText, slashes_rooted hBackslash, plainPath_rooted hSteps]

theorem linked?_eq_some_iff {path real : String} :
    linked? t path = some real ↔ t.isLink path = true ∧
      ∃ raw, t.realPath path = .ok raw ∧ plainPath (slashes raw.text) = real := by
  unfold linked?
  cases t.realPath path <;> simp

theorem linked?_eq_none_iff {path : String} :
    linked? t path = none ↔ ¬ (t.isLink path = true ∧ ∃ real, t.realPath path = .ok real) := by
  rw [Option.eq_none_iff_forall_ne_some]
  constructor
  · rintro hNone ⟨hLink, real, hReal⟩
    exact hNone _ (linked?_eq_some_iff.2 ⟨hLink, real, hReal, rfl⟩)
  · intro hNot real hSome
    obtain ⟨hLink, raw, hRaw, -⟩ := linked?_eq_some_iff.1 hSome
    exact hNot ⟨hLink, raw, hRaw⟩

theorem linked?_of_not_isLink {path : String} (hLink : t.isLink path = false) :
    linked? t path = none := by
  rw [linked?, hLink, if_neg Bool.false_ne_true]

theorem linked?_of_real (h : Real t (placeOf p)) : linked? t (rooted p) = none := by
  apply linked?_of_not_isLink
  rw [ofText_rooted]
  exact h.isLink_eq_false

/-- A link gives way to the path of the place that it leads to. -/
theorem linked?_of_reaches (hNames : ∀ s ∈ placeOf p, IsName s)
    (h : Reaches t .path n [] (placeOf p) (placeOf r)) (hLinks : n ≤ linkLimit)
    (hFits : Fits (placePath (placeOf p))) (hBackslash : ∀ s ∈ r, '\\' ∉ s.toList)
    (hLink : t.isLink (rooted p) = true) : linked? t (rooted p) = some (rooted r) := by
  have hReal : Real t (placeOf r) := h.real .root fun s hs => (hNames s hs).toIsStep
  rw [linked?_eq_some_iff, ofText_rooted]
  refine ⟨ofText_rooted p ▸ hLink, placePath (placeOf r), ?_, ?_⟩
  · rw [realPath_placePath_iff hNames hFits.1]
    exact ⟨n, hLinks, _, h, rfl⟩
  · exact plainPath_slashes_placePath
      (fun s hs => hReal.isStep s (List.mem_map_of_mem hs)) hBackslash

theorem next_concat (hName : IsName name) (hLinked : linked? t (rooted (p ++ [name])) = none)
    (kept : List String) :
    next t ⟨rooted (p ++ [name]), kept⟩ = some ⟨rooted p, name :: kept⟩ := by
  rw [next, hLinked]
  dsimp only
  rw [splitLast_rooted p hName]
  rfl

theorem run_of_next_eq_none {w : LinkWalk} (hEnd : next t w = none) (steps : Nat) :
    run t steps w = w := by
  cases steps with
  | zero => rfl
  | succ steps => rw [run, hEnd]

/-- At the root the walk ends. -/
theorem next_root (t : FileTree) (kept : List String) : next t ⟨rooted [], kept⟩ = none := by
  have hSplit : splitLast (rooted []) = none := splitLast_root (Or.inl rfl)
  have hLinked : linked? t (rooted []) = none := linked?_of_real .root
  rw [next, hLinked]
  dsimp only
  rw [hSplit]
  rfl

theorem run_root (t : FileTree) (steps : Nat) (kept : List String) :
    run t steps ⟨rooted [], kept⟩ = ⟨rooted [], kept⟩ :=
  run_of_next_eq_none (next_root t kept) steps

theorem run_of_real (h : Real t (placeOf p)) (kept : List String) {steps : Nat}
    (hSteps : p.length ≤ steps) : run t steps ⟨rooted p, kept⟩ = ⟨rooted [], p ++ kept⟩ := by
  induction p using List.reverseRecOn generalizing kept steps with
  | nil => exact run_root t steps kept
  | append_singleton p name ih =>
    rw [List.length_append, List.length_singleton] at hSteps
    obtain ⟨steps, rfl⟩ : ∃ n, steps = n + 1 := ⟨steps - 1, by omega⟩
    have hName : IsName name := h.isName name (List.mem_map_of_mem (by simp))
    have hAbove : Real t (placeOf p) := by
      rw [placeOf_append] at h
      exact h.of_append
    rw [run, next_concat hName (linked?_of_real h)]
    dsimp only
    rw [ih hAbove (name :: kept) (by omega), List.append_assoc]
    rfl

theorem run_of_reaches (hNames : ∀ s ∈ placeOf p, IsName s)
    (h : Reaches t .path n [] (placeOf p) (placeOf r)) (hLinks : n ≤ linkLimit)
    (hFits : Fits (placePath (placeOf p))) (hBackslash : ∀ s ∈ r, '\\' ∉ s.toList)
    (kept : List String) {steps : Nat} (hSteps : p.length + r.length ≤ steps) :
    run t steps ⟨rooted p, kept⟩ = ⟨rooted [], r ++ kept⟩ := by
  induction p using List.reverseRecOn generalizing n r kept steps with
  | nil =>
    have hRoot : placeOf r = placeOf [] := (Reaches.arrived []).unique h |>.symm
    rw [placeOf_inj hRoot]
    exact run_root t steps kept
  | append_singleton p name ih =>
    rw [List.length_append, List.length_singleton] at hSteps
    obtain ⟨steps, rfl⟩ : ∃ n, steps = n + 1 := ⟨steps - 1, by omega⟩
    have hReal : Real t (placeOf r) := h.real .root fun s hs => (hNames s hs).toIsStep
    have hLocate := h.by_name.locate hNames hLinks hFits
    have hConcat : placeOf (p ++ [name]) = placeOf p ++ [(name : RawText)] := placeOf_append p [name]
    obtain ⟨hAbove, hLast⟩ := List.forall_mem_append.1 (hConcat ▸ hNames)
    have hName : IsName name := List.forall_mem_singleton.1 hLast
    obtain ⟨m, k, above, hSum, hUp, hDown⟩ := (hConcat ▸ h).split
    have hIsLink := isLink_concat_iff hAbove hName hUp.by_name (hConcat ▸ hLocate)
    rw [← hConcat, ← ofText_rooted] at hIsLink
    rcases hDown.last hName with hLink | ⟨hPlace, hNoLink⟩
    -- the real path behind a link has no links on it, so the rest is `run_of_real`
    · rw [run, next, linked?_of_reaches hNames h hLinks hFits hBackslash (hIsLink.2 hLink)]
      dsimp only
      exact run_of_real hReal kept (by omega)
    · have hPlain : t.isLink (rooted (p ++ [name])) = false :=
        Bool.eq_false_iff.2 fun hLink => (hIsLink.1 hLink).elim hNoLink
      obtain ⟨r, last, rfl, rfl, hSame⟩ := List.map_eq_append_iff.1 hPlace
      obtain rfl : last = [name] := placeOf_inj hSame
      rw [List.length_append, List.length_singleton] at hSteps
      rw [run, next_concat hName (linked?_of_not_isLink hPlain)]
      dsimp only
      rw [ih hAbove hUp (by omega) (hConcat ▸ hFits).of_concat
        (List.forall_mem_append.1 hBackslash).1 (name :: kept) (by omega), List.append_assoc]
      rfl

theorem path_root (kept : List String) : path ⟨rooted [], kept⟩ = rooted kept := by
  have hJoin : path ⟨rooted [], kept⟩ = join "/" (joined kept) := rfl
  rw [hJoin, join]
  split
  · rename_i hEmpty
    have hPath : rooted kept = "/" ++ joined kept := rfl
    rw [hPath, hEmpty]
    rfl
  · rw [if_pos (by decide)]
    rfl

end LinkWalk

/-! ## Enough steps -/

namespace FileTree

variable {t : FileTree} {p r : List String}

theorem length_le_length_rooted (p : List String) : p.length ≤ (rooted p).length := by
  have hPath : rooted p = "/" ++ joined p := rfl
  rw [hPath, String.length_append]
  induction p using List.reverseRecOn with
  | nil => exact Nat.zero_le _
  | append_singleton p name ih =>
    rw [List.length_append, List.length_singleton]
    by_cases hNil : p = []
    · subst hNil
      exact Nat.le_add_right _ _
    · rw [joined_concat hNil, String.length_append, String.length_append]
      have hOne : ("/" : String).length = 1 := rfl
      have hMore := ih rfl
      omega

theorem le_foldl_max {α : Type} (f : α → Nat) (entries : List α) (start : Nat) :
    start ≤ entries.foldl (fun longest entry => max longest (f entry)) start ∧
      ∀ entry ∈ entries,
        f entry ≤ entries.foldl (fun longest entry => max longest (f entry)) start := by
  induction entries generalizing start with
  | nil => exact ⟨Nat.le_refl _, fun _ h => absurd h List.not_mem_nil⟩
  | cons first entries ih =>
    obtain ⟨hStart, hEntries⟩ := ih (max start (f first))
    rw [List.foldl_cons]
    refine ⟨Nat.le_trans (Nat.le_max_left _ _) hStart, fun entry hEntry => ?_⟩
    rcases List.mem_cons.1 hEntry with rfl | hLater
    · exact Nat.le_trans (Nat.le_max_right _ _) hStart
    · exact hEntries entry hLater

theorem size_placePath_le_longestPath {place : Place} (h : Real t place) :
    (placePath place).size ≤ t.longestPath := by
  obtain ⟨hRoot, hEntries⟩ := le_foldl_max (fun entry : Place × Node =>
    (placePath entry.1).size) t.entries 1
  cases h with
  | root => exact hRoot
  | @entry above name node hAbove hDirectory hName hNode hPlain =>
    exact hEntries (above ++ [name], node) (mem_entries_of_node? hNode (by simp))

theorem length_add_le_walkBound (hReal : Real t (placeOf r)) :
    p.length + r.length + 1 ≤ t.walkBound (rooted p) := by
  have hPath := length_le_length_rooted p
  have hPlace : r.length ≤ t.longestPath :=
    calc r.length ≤ (rooted r).length := length_le_length_rooted r
      _ ≤ (placePath (placeOf r)).size := by
        have hText := (RawText.ofText (rooted r)).length_text_le
        rwa [RawText.text_ofText, ofText_rooted] at hText
      _ ≤ t.longestPath := size_placePath_le_longestPath hReal
  have hLinks : t.longestPath + 1 ≤ (t.linkCount + 1) * (t.longestPath + 1) :=
    Nat.le_mul_of_pos_left _ (Nat.succ_pos _)
  rw [walkBound]
  omega

end FileTree

theorem Canonicalizer.resolveLinks_of_reaches {c : Canonicalizer} {t : FileTree}
    {p r : List String} {name : String} {n : Nat} (hNames : ∀ s ∈ placeOf p, IsName s)
    (hName : IsName name) (hDirectory : Reaches t .path n [] (placeOf p) (placeOf r))
    (hLinks : n ≤ linkLimit) (hFits : Fits (placePath (placeOf p)))
    (hBackslash : ∀ s ∈ r, '\\' ∉ s.toList)
    (hCanonical : c.canonicalize (rooted (p ++ [name])) = ⟨rooted (p ++ [name])⟩)
    (hLinked : LinkWalk.linked? t (rooted (p ++ [name])) = none) :
    c.resolveLinks t (rooted (p ++ [name])) = c.canonicalize (rooted (r ++ [name])) := by
  have hReal : Real t (placeOf r) := hDirectory.real .root fun s hs => (hNames s hs).toIsStep
  have hBound := length_add_le_walkBound (p := p ++ [name]) hReal
  rw [List.length_append, List.length_singleton] at hBound
  obtain ⟨steps, hSteps⟩ : ∃ n, t.walkBound (rooted (p ++ [name])) = n + 1 := ⟨_, rfl⟩
  have hEnough : p.length + r.length ≤ steps := by
    rw [hSteps] at hBound
    omega
  rw [resolveLinks, hCanonical]
  dsimp only
  rw [hSteps, LinkWalk.run, LinkWalk.next_concat hName hLinked]
  dsimp only
  rw [LinkWalk.run_of_reaches hNames hDirectory hLinks hFits hBackslash [name] hEnough,
    LinkWalk.path_root]

end CompileHost
