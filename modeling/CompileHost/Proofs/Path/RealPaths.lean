import CompileHost.Proofs.Path.Endings
import CompileHost.Proofs.Path.Readings

/-!
# Resolved paths are real paths

A file tree follows the links of a path from its beginning, and the walk that replaces links looks
at the path from its end.  It stops at the longest part of the path that is a link with a target.
The real path behind that link has no links on it, and the names left over were no links behind the
link, so they are none behind its real path either: both ways lead to one place.

Only the limits of a tree tell the two ways apart.  The way through the link follows more links and
may be longer, so a name left over can be too far for the tree, and in reach from the real path.

* `exists_turn`: where the walk along a path turns, and what it comes to.
* `not_link_result`: no links are left over, if the path keeps within the limits of the tree.
* `resolveLinks_eq_realPath`: what comes of a path.
* `resolveLinks_beyond_limit`: a path that is too far for its tree.
-/

namespace CompileHost

open CompileHost.Path CompileHost.Text FileTree

/-! ## Parts of a path -/

namespace FileTree

variable {t : FileTree} {p q r : Place} {xs : List RawText} {name : RawText} {n : Nat}

theorem Reaches.of_real_append (hReal : Real t r) (h : Reaches t .name n [] (r ++ xs) q) :
    Reaches t .name n r xs q := by
  obtain ⟨m, k, r', rfl, hBefore, hBehind⟩ := h.split
  obtain rfl := hBefore.unique hReal.reaches
  obtain rfl := hBefore.links_unique hReal.reaches
  rwa [Nat.zero_add]

/-- The same names are links behind a path and behind the place that it leads to. -/
theorem isLink_behind_iff {front above : Place}
    (hNames : ∀ s ∈ front ++ (above ++ [name]), IsName s)
    (hReal : Real t r) (hTo : Reaches t .name n [] front r)
    (hBehind : t.locate true (placePath (r ++ (above ++ [name]))) = .ok q)
    (hFront : t.locate true (placePath (front ++ (above ++ [name]))) = .ok p) :
    t.isLink (placePath (front ++ (above ++ [name]))) = true ↔
      t.isLink (placePath (r ++ (above ++ [name]))) = true := by
  obtain ⟨hFrontNames, hRest⟩ := List.forall_mem_append.1 hNames
  obtain ⟨hAbove, hLast⟩ := List.forall_mem_append.1 hRest
  have hName : IsName name := List.forall_mem_singleton.1 hLast
  have hBehindNames : ∀ s ∈ r ++ (above ++ [name]), IsName s :=
    List.forall_mem_append.2 ⟨hReal.isName, hRest⟩
  obtain ⟨m, -, hFromRoot⟩ := reaches_of_locate hBehindNames hBehind
  obtain ⟨k₁, k₂, place, -, hToAbove, -⟩ := (hFromRoot.of_real_append hReal).split
  rw [← List.append_assoc] at hFront hBehind ⊢
  rw [← List.append_assoc]
  rw [isLink_concat_iff (List.forall_mem_append.2 ⟨hFrontNames, hAbove⟩) hName
      (hTo.trans hToAbove) hFront,
    isLink_concat_iff (List.forall_mem_append.2 ⟨hReal.isName, hAbove⟩) hName
      (hReal.reaches.trans hToAbove) hBehind]

/-- Every part of a path that leads anywhere is short enough to be looked up, follows few enough
links, and comes along no place that is too far away to be looked up by its path. -/
def WithinLimits (t : FileTree) (p : Place) : Prop :=
  ∀ front back, p = front ++ back → ∀ n q, Reaches t .name n [] front q →
    n ≤ linkLimit ∧ Fits (placePath front) ∧ Reaches t .path n [] front q

theorem WithinLimits.exists_realPath {segments : List String}
    (h : WithinLimits t (placeOf segments)) (hNames : ∀ s ∈ segments, Plain s)
    (hExists : t.exists? (rooted segments) = true) :
    ∃ real, t.realPath (rooted segments) = .ok real := by
  have hIsName := isName_placeOf hNames
  rw [ofText_rooted, exists?_iff hIsName] at hExists
  obtain ⟨q, hLocate⟩ := hExists
  obtain ⟨n, hn, hReaches⟩ := reaches_of_locate hIsName hLocate
  obtain ⟨-, hFits, hByPath⟩ := h _ [] (List.append_nil _).symm n q hReaches
  refine ⟨placePath q, ?_⟩
  rw [ofText_rooted, realPath_placePath_iff hIsName hFits.1]
  exact ⟨n, hn, q, hByPath, rfl⟩

/-- A path keeps within the limits if no part of it is too long or fails as a loop, and each may be
walked along by paths as well as by names. -/
theorem withinLimits_of_walk (hParts : ∀ front ∈ p.inits, Fits (placePath front) ∧
      t.walk .name true linkLimit [] front ≠ .error .linkLoop ∧
      t.walk .path true linkLimit [] front = t.walk .name true linkLimit [] front) :
    WithinLimits t p := by
  rintro front back rfl n q hReaches
  obtain ⟨hFits, hNoLoop, hSame⟩ := hParts front ((List.mem_inits _ _).2 (List.prefix_append _ _))
  have hFew : n ≤ linkLimit := Nat.not_lt.1 fun hMany => hNoLoop (hReaches.walk_eq_linkLoop hMany)
  rw [hReaches.walk_eq_of_le hFew] at hSame
  obtain ⟨m, -, hByPath⟩ := reaches_of_walk hSame
  obtain rfl := hReaches.links_unique hByPath.by_name
  exact ⟨hFew, hFits, hByPath⟩

end FileTree

/-! ## Where a walk turns -/

namespace LinkWalk

variable {t : FileTree} {p : List String}

section Places

variable (hPlain : t.PlainNames) (hNames : ∀ s ∈ p, Plain s)
include hPlain hNames

theorem linked?_rooted_iff {real : String} :
    linked? t (rooted p) = some real ↔ t.isLink (rooted p) = true ∧
      ∃ n ≤ linkLimit, ∃ r, Reaches t .path n [] (placeOf p) (placeOf r) ∧ rooted r = real := by
  rw [linked?_eq_some_iff, ofText_rooted]
  refine and_congr_right fun hLink => ?_
  have hIsName := isName_placeOf hNames
  -- what is behind the link is a real path, spelled as it is
  have hSpelled {n : Nat} {q : Place} (h : Reaches t .path n [] (placeOf p) q) :
      ∃ r, q = placeOf r ∧ plainPath (slashes (placePath q).text) = rooted r := by
    have hReal : Real t q := h.real .root fun s hs => (hIsName s hs).toIsStep
    obtain ⟨r, rfl, hr⟩ := hPlain.exists_segments hReal
    exact ⟨r, rfl, plainPath_slashes_placePath (fun s hs => (hr s hs).isName.toIsStep)
      fun s hs => (hr s hs).no_backslash⟩
  simp only [realPath_placePath_iff hIsName (fits_of_isLink hLink).1]
  constructor
  · rintro ⟨raw, ⟨n, hn, q, hReaches, rfl⟩, rfl⟩
    obtain ⟨r, rfl, hr⟩ := hSpelled hReaches
    exact ⟨n, hn, r, hReaches, hr.symm⟩
  · rintro ⟨n, hn, r, hReaches, rfl⟩
    obtain ⟨r', hSame, hr'⟩ := hSpelled hReaches
    rw [placeOf_inj hSame]
    exact ⟨_, ⟨n, hn, _, hReaches, rfl⟩, hr'⟩

end Places

/-- The walk along a path turns where its longest part ends that is a link with a target, or at the
root, if there is no such part.  There it goes on from the place that this part leads to. -/
structure TurnsAt (t : FileTree) (p front back r : List String) : Prop where
  split : p = front ++ back
  fits : Fits (placePath (placeOf front))
  reaches : ∃ n ≤ linkLimit, Reaches t .path n [] (placeOf front) (placeOf r)
  linked : linked? t (rooted front) = some (rooted r) ∨ front = [] ∧ r = []
  last : ∀ first rest, back = first ++ rest → first ≠ [] →
    linked? t (rooted (front ++ first)) = none

/-- A path that is a link with a target is where its own walk turns. -/
theorem exists_turnsAt_of_linked? (hPlain : t.PlainNames) (hNames : ∀ s ∈ p, Plain s)
    {real : String} (hLinked : linked? t (rooted p) = some real) :
    ∃ r, real = rooted r ∧ TurnsAt t p p [] r := by
  obtain ⟨hLink, n, hn, r, hReaches, rfl⟩ := (linked?_rooted_iff hPlain hNames).1 hLinked
  refine ⟨r, rfl, (List.append_nil _).symm, ?_, ⟨n, hn, hReaches⟩, Or.inl hLinked, ?_⟩
  · rw [← ofText_rooted]
    exact fits_of_isLink hLink
  · intro first rest hNil hSome
    exact absurd (List.append_eq_nil_iff.1 hNil.symm).1 hSome

/-- One name more is left over, if it makes no link of the path. -/
theorem TurnsAt.concat {front back r : List String} {name : String} (h : TurnsAt t p front back r)
    (hLinked : linked? t (rooted (p ++ [name])) = none) :
    TurnsAt t (p ++ [name]) front (back ++ [name]) r := by
  refine ⟨?_, h.fits, h.reaches, h.linked, ?_⟩
  · rw [← List.append_assoc, ← h.split]
  · intro first rest hBack hSome
    rcases List.eq_nil_or_concat rest with rfl | ⟨rest, last, rfl⟩
    · rw [List.append_nil] at hBack
      rwa [← hBack, ← List.append_assoc, ← h.split]
    · rw [List.concat_eq_append, ← List.append_assoc] at hBack
      exact h.last first rest (List.append_inj_left' hBack rfl) hSome

/-- The walk comes to the place where it turns, and to the names that are left over. -/
theorem exists_turn (hPlain : t.PlainNames) (hNames : ∀ s ∈ p, Plain s) :
    ∃ front back r, TurnsAt t p front back r ∧
      ∀ kept steps, p.length + r.length + 1 ≤ steps →
        run t steps ⟨rooted p, kept⟩ = ⟨rooted [], r ++ back ++ kept⟩ := by
  induction p using List.reverseRecOn with
  | nil =>
    refine ⟨[], [], [], ⟨rfl, ⟨by decide, by decide⟩, ⟨0, Nat.zero_le _, .arrived []⟩,
      Or.inr ⟨rfl, rfl⟩, ?_⟩, ?_⟩
    · intro first rest hNil hSome
      exact absurd (List.append_eq_nil_iff.1 hNil.symm).1 hSome
    · intro kept steps _
      exact run_root t steps kept
  | append_singleton p name ih =>
    obtain ⟨hAbove, hLast⟩ := List.forall_mem_append.1 hNames
    have hName : IsName name := (List.forall_mem_singleton.1 hLast).isName
    cases hLinked : linked? t (rooted (p ++ [name])) with
    | some real =>
      obtain ⟨r, rfl, hTurn⟩ := exists_turnsAt_of_linked? hPlain hNames hLinked
      refine ⟨p ++ [name], [], r, hTurn, fun kept steps hSteps => ?_⟩
      obtain ⟨steps, rfl⟩ : ∃ n, steps = n + 1 := ⟨steps - 1, by omega⟩
      have hNext : next t ⟨rooted (p ++ [name]), kept⟩ = some ⟨rooted r, kept⟩ := by
        rw [next, hLinked]
      obtain ⟨n, -, hReaches⟩ := hTurn.reaches
      have hReal : Real t (placeOf r) :=
        hReaches.real .root fun s hs => (isName_placeOf hNames s hs).toIsStep
      rw [run_succ hNext, run_of_real hReal kept (by omega), List.append_nil]
    | none =>
      obtain ⟨front, back, r, hTurn, hRun⟩ := ih hAbove
      refine ⟨front, back ++ [name], r, hTurn.concat hLinked, fun kept steps hSteps => ?_⟩
      rw [List.length_append, List.length_singleton] at hSteps
      obtain ⟨steps, rfl⟩ : ∃ n, steps = n + 1 := ⟨steps - 1, by omega⟩
      rw [run_succ (next_concat hName hLinked kept), hRun (name :: kept) steps (by omega)]
      simp

namespace TurnsAt

variable {front back r : List String}

section Names

variable (hTurn : TurnsAt t p front back r) (hNames : ∀ s ∈ p, Plain s)
include hTurn hNames

theorem plain_front : ∀ s ∈ front, Plain s := by
  intro s hs
  apply hNames
  rw [hTurn.split]
  exact List.mem_append_left _ hs

theorem plain_back : ∀ s ∈ back, Plain s := by
  intro s hs
  apply hNames
  rw [hTurn.split]
  exact List.mem_append_right _ hs

theorem real : Real t (placeOf r) := by
  obtain ⟨n, -, hReaches⟩ := hTurn.reaches
  exact hReaches.real .root fun s hs =>
    (isName_placeOf (hTurn.plain_front hNames) s hs).toIsStep

theorem realPath : t.realPath (rooted front) = .ok (rooted r : RawText) := by
  obtain ⟨n, hn, hReaches⟩ := hTurn.reaches
  rw [ofText_rooted, ofText_rooted,
    realPath_placePath_iff (isName_placeOf (hTurn.plain_front hNames)) hTurn.fits.1]
  exact ⟨n, hn, _, hReaches, rfl⟩

theorem plain_result (hPlain : t.PlainNames) : ∀ s ∈ r ++ back, Plain s := by
  obtain ⟨r', hSame, hr⟩ := hPlain.exists_segments (hTurn.real hNames)
  rw [placeOf_inj hSame]
  exact List.forall_mem_append.2 ⟨hr, hTurn.plain_back hNames⟩

end Names

section Limits

variable (hPlain : t.PlainNames) (hTurn : TurnsAt t p front back r) (hNames : ∀ s ∈ p, Plain s)
  (hLimits : WithinLimits t (placeOf p))
include hPlain hTurn hNames hLimits

/-- The names left over are looked up behind the real path as they are behind the link, so there is
no link among them, unless it is too far behind the link. -/
theorem not_link_of_limits {above rest : List String} {name : String}
    (hBack : back = above ++ [name] ++ rest) :
    ¬ (t.isLink (rooted (r ++ (above ++ [name]))) = true ∧
      t.exists? (rooted (r ++ (above ++ [name]))) = true) := by
  have hSplit : p = front ++ (above ++ [name]) ++ rest := by
    rw [hTurn.split, hBack]
    simp only [List.append_assoc]
  have hPlace {xs : List String} :
      placeOf (xs ++ (above ++ [name])) = placeOf xs ++ (placeOf above ++ [(name : RawText)]) := by
    rw [placeOf_append, placeOf_append]
    rfl
  have hFront : ∀ s ∈ front ++ (above ++ [name]), Plain s := by
    rw [hSplit] at hNames
    exact (List.forall_mem_append.1 hNames).1
  have hBehind : ∀ s ∈ r ++ (above ++ [name]), Plain s := by
    have hResult := hTurn.plain_result hNames hPlain
    rw [hBack, ← List.append_assoc] at hResult
    exact (List.forall_mem_append.1 hResult).1
  have hReal : Real t (placeOf r) := hTurn.real hNames
  rw [ofText_rooted, exists?_iff (isName_placeOf hBehind)]
  rintro ⟨hLink, q, hLocate⟩
  -- the names lead to `q` from the real path, and therefore from the link
  obtain ⟨m, -, hToReal⟩ := hTurn.reaches
  obtain ⟨n, -, hFromRoot⟩ := reaches_of_locate (isName_placeOf hBehind) hLocate
  have hFar : Reaches t .name (m + n) [] (placeOf (front ++ (above ++ [name]))) q := by
    rw [placeOf_append] at hFromRoot ⊢
    exact hToReal.by_name.trans (hFromRoot.of_real_append hReal)
  obtain ⟨hFew, hFits, hByPath⟩ :=
    hLimits _ (placeOf rest) (by rw [hSplit, placeOf_append]) _ _ hFar
  have hFound := hFar.locate (isName_placeOf hFront) hFew hFits
  have hFrontLink : t.isLink (rooted (front ++ (above ++ [name]))) = true := by
    have hIsName := isName_placeOf hFront
    rw [hPlace] at hIsName hFound hLocate hLink
    rw [ofText_rooted, hPlace]
    exact (isLink_behind_iff hIsName hReal hToReal.by_name hLocate hFound).2 hLink
  obtain ⟨r', rfl, -⟩ := hPlain.exists_segments
    (hFar.real .root fun s hs => (isName_placeOf hFront s hs).toIsStep)
  have hSome := (linked?_rooted_iff hPlain hFront).2 ⟨hFrontLink, _, hFew, r', hByPath, rfl⟩
  rw [hTurn.last (above ++ [name]) rest hBack (by simp)] at hSome
  cases hSome

/-- What the walk comes to has no links on it. -/
theorem not_link_result {first rest : List String} (hResult : r ++ back = first ++ rest) :
    ¬ (t.isLink (rooted first) = true ∧ t.exists? (rooted first) = true) := by
  have hReal : Real t (placeOf r) := hTurn.real hNames
  have hNoLink {p : List String} (h : Real t (placeOf p)) :
      ¬ (t.isLink (rooted p) = true ∧ t.exists? (rooted p) = true) := by
    rintro ⟨hLink, -⟩
    rw [ofText_rooted, h.isLink_eq_false] at hLink
    cases hLink
  rcases List.append_eq_append_iff.1 hResult with ⟨behind, rfl, hBack⟩ | ⟨others, rfl, -⟩
  · rcases List.eq_nil_or_concat behind with rfl | ⟨above, name, rfl⟩
    · rw [List.append_nil]
      exact hNoLink hReal
    · rw [List.concat_eq_append] at hBack ⊢
      exact hTurn.not_link_of_limits hPlain hNames hLimits hBack
  · rw [placeOf_append] at hReal
    exact hNoLink hReal.of_append

theorem linked?_result_eq_none {first rest : List String} (hResult : r ++ back = first ++ rest) :
    linked? t (rooted first) = none := by
  rw [linked?_eq_none_iff]
  rintro ⟨hLink, real, hReal⟩
  refine hTurn.not_link_result hPlain hNames hLimits hResult ⟨hLink, ?_⟩
  have hFits := fits_of_isLink hLink
  have hIsName : ∀ s ∈ placeOf first, IsName s := isName_placeOf fun s hs =>
    hTurn.plain_result hNames hPlain s (hResult ▸ List.mem_append_left rest hs)
  rw [ofText_rooted] at hFits hReal ⊢
  exact exists?_of_realPath hIsName hFits hReal

end Limits

end TurnsAt

end LinkWalk

/-! ## Resolved paths -/

namespace Canonicalizer

variable {c : Canonicalizer} {t : FileTree} {p front r : List String} {back : List String}

theorem Canonical.text_eq_rooted {path : CanonicalPath} (hPath : c.Canonical path)
    (hRoot : path.root = "/") : path.text = rooted path.segments := by
  rw [hPath.text_eq, hRoot]
  rfl

section CaseSensitive

variable (hCase : c.caseSensitive = true) (hPlain : t.PlainNames)
include hCase

theorem canonicalize_rooted (hNames : ∀ s ∈ p, Plain s) :
    c.canonicalize (rooted p) = ⟨rooted p⟩ := by
  have hCanonical : c.Canonical (CanonicalPath.of "/" p) :=
    canonical_of (Or.inl rfl) hNames (fold_of_caseSensitive hCase "/") fun s _ =>
      fold_of_caseSensitive hCase s
  exact hCanonical.canonicalize_text

include hPlain

/-- A path resolves to what the walk along it comes to. -/
theorem exists_turn_of_resolveLinks (hNames : ∀ s ∈ p, Plain s) :
    ∃ front back r, LinkWalk.TurnsAt t p front back r ∧
      c.resolveLinks t (rooted p) = ⟨rooted (r ++ back)⟩ := by
  obtain ⟨front, back, r, hTurn, hRun⟩ := LinkWalk.exists_turn hPlain hNames
  refine ⟨front, back, r, hTurn, ?_⟩
  rw [resolveLinks, canonicalize_rooted hCase hNames]
  dsimp only
  rw [hRun [] _ (length_add_le_walkBound (hTurn.real hNames)), List.append_nil, LinkWalk.path_root,
    canonicalize_rooted hCase (hTurn.plain_result hNames hPlain)]

/-- A path that exists resolves to its real path. -/
theorem resolveLinks_of_realPath (hNames : ∀ s ∈ p, Plain s)
    (hExists : t.exists? (rooted p) = true) {real : RawText}
    (hReal : t.realPath (rooted p) = .ok real) : real = (c.resolveLinks t (rooted p)).text := by
  have hIsName := isName_placeOf hNames
  rw [ofText_rooted, exists?_iff hIsName] at hExists
  obtain ⟨place, hLocate⟩ := hExists
  have hFits := fits_of_locate hLocate
  rw [ofText_rooted, realPath_placePath_iff hIsName hFits.1] at hReal
  obtain ⟨n, hn, q, hReaches, rfl⟩ := hReal
  have hThere : Real t q := hReaches.real .root fun s hs => (hIsName s hs).toIsStep
  obtain ⟨r, rfl, hr⟩ := hPlain.exists_segments hThere
  have hSteps : p.length + r.length ≤ t.walkBound (rooted p) :=
    Nat.le_of_succ_le (length_add_le_walkBound hThere)
  rw [resolveLinks, canonicalize_rooted hCase hNames]
  dsimp only
  rw [LinkWalk.run_of_reaches hIsName hReaches hn hFits (fun s hs => (hr s hs).no_backslash) []
    hSteps, List.append_nil, LinkWalk.path_root, canonicalize_rooted hCase hr, ofText_rooted]

/-- A path without links, and no other, resolves to itself. -/
theorem resolveLinks_eq_self_iff (hNames : ∀ s ∈ p, Plain s) :
    c.resolveLinks t (rooted p) = ⟨rooted p⟩ ↔
      ∀ front back, p = front ++ back → LinkWalk.linked? t (rooted front) = none := by
  obtain ⟨front, back, r, hTurn, hResolved⟩ := exists_turn_of_resolveLinks hCase hPlain hNames
  have hSplit := hTurn.split
  have hReal : Real t (placeOf r) := hTurn.real hNames
  rw [hResolved, CanonicalPath.mk.injEq]
  constructor
  · intro hPath first rest hFirst
    have hSame : r ++ back = p := by
      have hResult := isName_placeOf (hTurn.plain_result hNames hPlain)
      refine placeOf_inj (placePath_inj (fun s hs => (hResult s hs).toIsStep)
        (fun s hs => (isName_placeOf hNames s hs).toIsStep) ?_)
      rw [← ofText_rooted, hPath, ofText_rooted]
    have hFront : front = [] := by
      rcases hTurn.linked with hLinked | ⟨hNil, -⟩
      -- what is behind a link is a real path, and no link
      · rw [hSplit] at hSame
        rw [← List.append_cancel_right hSame, LinkWalk.linked?_of_real hReal] at hLinked
        cases hLinked
      · exact hNil
    subst hFront
    by_cases hNil : first = []
    · subst hNil
      exact LinkWalk.linked?_of_real .root
    · exact hTurn.last first rest (hSplit.symm.trans hFirst) hNil
  · intro hNone
    rcases hTurn.linked with hLinked | ⟨rfl, rfl⟩
    · rw [hNone front back hSplit] at hLinked
      cases hLinked
    · rw [hSplit]

end CaseSensitive

/-- **Real paths.**  What comes of a path from the root, in a tree whose names are texts without
backslashes.  A path that exists resolves to its real path, if the tree can tell it.  Any path
resolves to the real path of a part of it, with the rest of its names behind.  The outcome resolves
to itself exactly if there is no link on it whose real path the tree can tell.  If the path keeps
within the limits of the tree, the tree can tell the real path of what exists, and there is no link
with a target on the outcome. -/
theorem resolveLinks_eq_realPath (hCase : c.caseSensitive = true) (hc : c.Anchored)
    (hPlain : t.PlainNames) {path : String} (hRoot : (c.canonicalize path).root = "/") :
    let whole := c.canonicalize path
    let resolved := c.resolveLinks t path
    (t.exists? whole.text = true →
        ∀ real, t.realPath whole.text = .ok real → real = resolved.text) ∧
      (∃ front back r, whole.segments = front ++ back ∧
        t.realPath (rooted front) = .ok (rooted r : RawText) ∧
        resolved.text = rooted (r ++ back)) ∧
      (c.resolveLinks t resolved.text = resolved ↔
        ∀ front back, resolved.segments = front ++ back →
          ¬ (t.isLink (rooted front) = true ∧ ∃ real, t.realPath (rooted front) = .ok real)) ∧
      (WithinLimits t (placeOf whole.segments) →
        (t.exists? whole.text = true → t.realPath whole.text = .ok (resolved.text : RawText)) ∧
        (∀ front back, resolved.segments = front ++ back →
          ¬ (t.isLink (rooted front) = true ∧ t.exists? (rooted front) = true)) ∧
        c.resolveLinks t resolved.text = resolved) := by
  intro whole resolved
  have hWhole : c.Canonical whole := canonical_canonicalize hc path
  have hText : whole.text = rooted whole.segments := hWhole.text_eq_rooted hRoot
  obtain ⟨front, back, r, hTurn, hResolved⟩ :=
    exists_turn_of_resolveLinks hCase hPlain hWhole.plain
  have hSame : c.resolveLinks t (rooted whole.segments) = resolved := by
    rw [← hText, resolveLinks, hWhole.canonicalize_text]
    rfl
  rw [hSame] at hResolved
  have hResult := hTurn.plain_result hWhole.plain hPlain
  have hSegments : resolved.segments = r ++ back := by
    rw [hResolved]
    exact (CanonicalPath.segments_rooted fun s hs => (hResult s hs).isName.toIsStep).1
  have hAgain : c.resolveLinks t resolved.text = resolved ↔
      ∀ first rest, r ++ back = first ++ rest → LinkWalk.linked? t (rooted first) = none := by
    rw [hResolved]
    exact resolveLinks_eq_self_iff hCase hPlain hResult
  have hExisting : t.exists? whole.text = true →
      ∀ real, t.realPath whole.text = .ok real → real = resolved.text := by
    rw [hText, ← hSame]
    exact fun hExists real => resolveLinks_of_realPath hCase hPlain hWhole.plain hExists
  refine ⟨hExisting, ⟨front, back, r, hTurn.split, hTurn.realPath hWhole.plain,
    congrArg CanonicalPath.text hResolved⟩, ?_, fun hLimits => ?_⟩
  · rw [hAgain, hSegments]
    exact forall₃_congr fun first rest hFirst => LinkWalk.linked?_eq_none_iff
  · refine ⟨fun hExists => ?_, ?_, hAgain.2 fun first rest hFirst => ?_⟩
    · obtain ⟨real, hReal⟩ := hLimits.exists_realPath hWhole.plain (hText ▸ hExists)
      rw [← hText] at hReal
      rw [hReal, hExisting hExists real hReal]
    · rw [hSegments]
      exact fun first rest hFirst => hTurn.not_link_result hPlain hWhole.plain hLimits hFirst
    · exact hTurn.linked?_result_eq_none hPlain hWhole.plain hLimits hFirst

/-- A link that leads over another one, and a link that leads nowhere behind it. -/
theorem resolveLinks_eq_realPath_chain :
    let t : FileTree := ⟨[(["a"], .directory), (["a", "l"], .link "../b"), (["b"], .link "a/c/."),
      (["a", "c"], .directory), (["a", "c", "f"], .file []), (["a", "c", "d"], .link "none")], []⟩
    let c := Canonicalizer.of "/" "." true
    c.Anchored ∧ t.PlainNames ∧ (c.canonicalize "a/l/f").root = "/" ∧
      (c.canonicalize "a/l/d/x").root = "/" ∧
      t.realPath (c.canonicalize "a/l/f").text =
        .ok ((c.resolveLinks t "a/l/f").text : RawText) ∧
      c.resolveLinks t "a/l/d/x" = ⟨"/a/c/d/x"⟩ ∧ c.resolveLinks t "/a/c/d/x" = ⟨"/a/c/d/x"⟩ := by
  intro t c
  have hc : c.Anchored := anchored_of (by decide) "." true
  have hPlain : t.PlainNames := by decide +kernel
  have hFile : (c.canonicalize "a/l/f").root = "/" := by decide +kernel
  have hOther : (c.canonicalize "a/l/d/x").root = "/" := by decide +kernel
  have hResolved : c.resolveLinks t "a/l/d/x" = ⟨"/a/c/d/x"⟩ := by decide +kernel
  have hLimits : ∀ path ∈ ["a/l/f", "a/l/d/x"],
      WithinLimits t (placeOf (c.canonicalize path).segments) := by
    intro path hPath
    have hParts : ∀ path ∈ ["a/l/f", "a/l/d/x"],
        ∀ front ∈ (placeOf (c.canonicalize path).segments).inits,
          (RawText.null ∉ (placePath front).bytes ∧ (placePath front).size ≤ pathLimit) ∧
          t.walk .name true linkLimit [] front ≠ .error .linkLoop ∧
          t.walk .path true linkLimit [] front = t.walk .name true linkLimit [] front := by
      decide +kernel
    exact withinLimits_of_walk (hParts path hPath)
  obtain ⟨-, -, -, hReal⟩ := resolveLinks_eq_realPath rfl hc hPlain hFile
  obtain ⟨-, -, -, hAgain⟩ := resolveLinks_eq_realPath rfl hc hPlain hOther
  refine ⟨hc, hPlain, hFile, hOther, ?_, hResolved, ?_⟩
  · exact (hReal (hLimits "a/l/f" (by simp))).1 (by decide +kernel)
  · have h := (hAgain (hLimits "a/l/d/x" (by simp))).2.2
    rwa [hResolved] at h

/-- Four links, each of which leads over nine others, and one more that is too far behind them; and
a link to a directory whose name is no text. -/
theorem resolveLinks_beyond_limit :
    let t : FileTree := ⟨[(["l"], .link "."), (["m"], .link "l/l/l/l/l/l/l/l/l")], []⟩
    let raw : FileTree := ⟨[([⟨[0xff]⟩], .directory), (["l"], .link ⟨[0xff]⟩)], []⟩
    let c := Canonicalizer.of "/" "." true
    c.Anchored ∧ t.PlainNames ∧ (c.canonicalize "m/m/m/m/l").root = "/" ∧
      c.resolveLinks t "m/m/m/m/l" = ⟨"/l"⟩ ∧ t.isLink "/l" = true ∧ t.exists? "/l" = true ∧
      c.resolveLinks t "/l" = ⟨"/"⟩ ∧
      raw.exists? "/l" = true ∧ raw.realPath "/l" = .ok (placePath [⟨[0xff]⟩]) ∧
      c.resolveLinks raw "/l" = ⟨"/\ufffd"⟩ ∧
      (RawText.ofText "/\ufffd") ≠ placePath [⟨[0xff]⟩] := by
  intro t raw c
  refine ⟨anchored_of (by decide) "." true, ?_⟩
  decide +kernel

end Canonicalizer

end CompileHost
