import CompileHost.Proofs.Path.NormalForm
import Mathlib.Data.List.Induction

/-!
# Taking a path apart from its end

`splitLast` cuts a path at its last slash.  The slash is left out, unless it is the end of the root:
a root stays whole, and nothing more is cut off it.  A canonical path comes apart into its segments
in this way, one at a time, and they go together again to the same path.

* `splitLast_eq_some_iff`: where a path is cut, whatever it looks like.
* `join_joined`: segments that are joined to a normal path stand behind its own.
* `peel_text_append`: what comes off a normal path.
* `peel_lossless`: a canonical path is taken apart, down to its root, without loss.
-/

namespace CompileHost

open CompileHost.Path

namespace Path

open Text

variable {path root parent name : String} {above below segments : List String}

/-! ## Where a path is cut -/

/-- The last segment of a path, and what is left without it.  The slash between the two goes,
unless it belongs to the root. -/
inductive Cut (path parent name : String) : Prop where
  | behindRoot (hRoot : parent.length = rootLength path.toList) (hPath : path = parent ++ name)
      (hSome : name ≠ "") (hSlash : '/' ∉ name.toList)
  | atSlash (hRoot : rootLength path.toList ≤ parent.length) (hPath : path = parent ++ "/" ++ name)
      (hSlash : '/' ∉ name.toList)

theorem Cut.length_lt (h : Cut path parent name) : parent.length < path.length := by
  cases h with
  | behindRoot hRoot hPath hSome hSlash =>
    have hName : name.length ≠ 0 := fun hZero => hSome (String.length_eq_zero_iff.1 hZero)
    rw [hPath, String.length_append]
    omega
  | atSlash hRoot hPath hSlash =>
    have hOne : "/".length = 1 := rfl
    rw [hPath, String.length_append, String.length_append]
    omega

theorem rootLength_le (cs : List Char) : rootLength cs ≤ cs.length := by
  fun_cases rootLength cs <;> simp

theorem pieces_of_no_slash (hSlash : '/' ∉ name.toList) : pieces name = [name] := by
  rw [pieces, splitAt_of_not_mem hSlash, List.map_singleton, String.ofList_toList]

theorem pieces_eq_singleton_empty_iff {text : String} : pieces text = [""] ↔ text = "" := by
  constructor
  · intro hPieces
    rw [← joined_pieces text, hPieces, joined_singleton]
  · rintro rfl
    exact pieces_empty

theorem exists_append_of_le_length {n : Nat} (hLe : n ≤ path.length) :
    ∃ root rest, path = root ++ rest ∧ root.length = n := by
  refine ⟨String.ofList (path.toList.take n), String.ofList (path.toList.drop n), ?_, ?_⟩
  · rw [← String.ofList_append, List.take_append_drop, String.ofList_toList]
  · rw [String.length_ofList, List.length_take, String.length_toList, Nat.min_eq_left hLe]

theorem splitLast_append {rest : String} (hRoot : root.length = rootLength (root ++ rest).toList) :
    splitLast (root ++ rest) =
      if rest = "" then none
      else some (Parts.text ⟨root, (pieces rest).dropLast⟩, (pieces rest).getLastD "") := by
  have hParts : parts (root ++ rest) = ⟨root, pieces rest⟩ := by
    rw [parts, ← hRoot, ← String.length_toList, String.toList_append, List.take_left,
      List.drop_left, String.ofList_toList]
    rfl
  simp only [splitLast, hParts, pieces_eq_singleton_empty_iff]

theorem splitLast_of_cut (h : Cut path parent name) : splitLast path = some (parent, name) := by
  cases h with
  | behindRoot hRoot hPath hSome hSlash =>
    subst hPath
    rw [splitLast_append hRoot, if_neg hSome, pieces_of_no_slash hSlash, List.dropLast_singleton,
      text_nil]
    rfl
  | atSlash hRoot hPath hSlash =>
    obtain ⟨root, rest, hParent, hLength⟩ := exists_append_of_le_length hRoot
    have hWhole : path = root ++ (rest ++ "/" ++ name) := by
      rw [hPath, hParent]
      simp only [String.append_assoc]
    have hPieces : pieces (rest ++ "/" ++ name) = pieces rest ++ [name] := by
      rw [pieces_append_slash, pieces_of_no_slash hSlash]
    have hMore : rest ++ "/" ++ name ≠ "" := by
      intro hEmpty
      have hSlashes := congrArg String.length hEmpty
      simp at hSlashes
    rw [hWhole] at hLength ⊢
    rw [splitLast_append hLength, if_neg hMore, hPieces, List.dropLast_concat,
      List.getLastD_concat, text_eq, joined_pieces, hParent]

/-- Whatever stands behind the root of a path is cut. -/
theorem exists_cut (hMore : path.length ≠ rootLength path.toList) :
    ∃ parent name, Cut path parent name := by
  have hLe : rootLength path.toList ≤ path.length := rootLength_le path.toList
  obtain ⟨root, rest, hPath, hLength⟩ := exists_append_of_le_length hLe
  have hRest : rest ≠ "" := by
    rintro rfl
    rw [String.append_empty] at hPath
    exact hMore (by rw [hPath] at hLength ⊢; exact hLength)
  obtain ⟨above, name, hPieces⟩ :=
    (List.eq_nil_or_concat (pieces rest)).resolve_left (pieces_ne_nil rest)
  rw [List.concat_eq_append] at hPieces
  have hLast : name ∈ pieces rest := by
    rw [hPieces]
    exact List.mem_append_right _ List.mem_cons_self
  have hSlash : '/' ∉ name.toList := slash_not_mem_of_mem_pieces hLast
  have hJoined : rest = joined (above ++ [name]) := by rw [← hPieces, joined_pieces]
  by_cases hAbove : above = []
  · subst hAbove
    rw [List.nil_append, joined_singleton] at hJoined
    subst hJoined
    exact ⟨root, rest, .behindRoot hLength hPath hRest hSlash⟩
  · refine ⟨root ++ joined above, name, .atSlash ?_ ?_ hSlash⟩
    · rw [String.length_append, hLength]
      exact Nat.le_add_right _ _
    · rw [hPath, hJoined, joined_concat hAbove]
      simp only [String.append_assoc]

theorem splitLast_eq_none_iff :
    splitLast path = none ↔ path.length = rootLength path.toList := by
  constructor
  · intro hNone
    refine Decidable.byContradiction fun hMore => ?_
    obtain ⟨parent, name, hCut⟩ := exists_cut hMore
    rw [splitLast_of_cut hCut] at hNone
    cases hNone
  · intro hLength
    rw [← String.append_empty (s := path)] at hLength ⊢
    rw [splitLast_append (by simpa using hLength), if_pos rfl]

/-- `splitLast` finds the one place where a path may be cut. -/
theorem splitLast_eq_some_iff : splitLast path = some (parent, name) ↔ Cut path parent name := by
  constructor
  · intro hSplit
    have hMore : path.length ≠ rootLength path.toList := by
      intro hLength
      rw [splitLast_eq_none_iff.2 hLength] at hSplit
      cases hSplit
    obtain ⟨parent', name', hCut⟩ := exists_cut hMore
    rw [splitLast_of_cut hCut] at hSplit
    cases hSplit
    exact hCut
  · exact splitLast_of_cut

theorem dirname_of_splitLast (hSplit : splitLast path = some (parent, name))
    (hSome : parent ≠ "") : dirname path = parent := by
  rw [dirname, hSplit]
  exact if_neg hSome

/-! ## Normal paths -/

/-- The last segment of a path with a root. -/
theorem cut_text (hRoot : IsRoot root) (segments : List String) (hSome : name ≠ "")
    (hSlash : '/' ∉ name.toList) :
    Cut (Parts.text ⟨root, segments ++ [name]⟩) (Parts.text ⟨root, segments⟩) name := by
  rw [text_eq, text_eq]
  have hLength : ∀ rest, rootLength (root ++ rest).toList = root.length := by
    intro rest
    rw [String.toList_append, rootLength_append hRoot, String.length_toList]
  by_cases hAbove : segments = []
  · subst hAbove
    rw [← text_eq root [], text_nil, List.nil_append, joined_singleton]
    exact .behindRoot (hLength name).symm rfl hSome hSlash
  · refine .atSlash ?_ ?_ hSlash
    · rw [hLength, String.length_append]
      exact Nat.le_add_right _ _
    · rw [joined_concat hAbove]
      simp only [String.append_assoc]

theorem splitLast_text_concat (hRoot : IsRoot root) (segments : List String) (hSome : name ≠ "")
    (hSlash : '/' ∉ name.toList) :
    splitLast (Parts.text ⟨root, segments ++ [name]⟩) =
      some (Parts.text ⟨root, segments⟩, name) :=
  splitLast_of_cut (cut_text hRoot segments hSome hSlash)

theorem splitLast_root (hRoot : IsRoot root) : splitLast root = none := by
  have hLength := rootLength_append hRoot []
  rw [List.append_nil, String.length_toList] at hLength
  exact splitLast_eq_none_iff.2 hLength.symm

/-- Segments that are joined to a normal path stand behind its own. -/
theorem join_joined (hRoot : IsRoot root) (hAbove : ∀ s ∈ above, Plain s)
    (hBelow : ∀ s ∈ below, Plain s) :
    join (Parts.text ⟨root, above⟩) (joined below) = Parts.text ⟨root, above ++ below⟩ := by
  by_cases hNone : below = []
  · subst hNone
    rw [List.append_nil]
    exact if_pos rfl
  · rw [join, if_neg (joined_ne_empty hNone hBelow)]
    by_cases hTop : above = []
    · subst hTop
      rw [text_nil, if_pos hRoot.endsWithSlash]
      rfl
    · rw [endsWithSlash_text hTop hAbove, if_neg Bool.false_ne_true, text_eq, text_eq,
        joined_append hTop hNone]
      simp only [String.append_assoc]

theorem join_text (hRoot : IsRoot root) (hAbove : ∀ s ∈ above, Plain s) (hName : Plain name) :
    join (Parts.text ⟨root, above⟩) name = Parts.text ⟨root, above ++ [name]⟩ := by
  have hJoin := join_joined hRoot hAbove (List.forall_mem_singleton.2 hName)
  rwa [joined_singleton] at hJoin

/-- Segments may also be joined one by one. -/
theorem foldl_join (hRoot : IsRoot root) (hAbove : ∀ s ∈ above, Plain s)
    (hBelow : ∀ s ∈ below, Plain s) :
    below.foldl join (Parts.text ⟨root, above⟩) = Parts.text ⟨root, above ++ below⟩ := by
  induction below generalizing above with
  | nil => rw [List.foldl_nil, List.append_nil]
  | cons s below ih =>
    have hs : Plain s := hBelow s List.mem_cons_self
    have hNext : ∀ t ∈ above ++ [s], Plain t :=
      List.forall_mem_append.2 ⟨hAbove, List.forall_mem_singleton.2 hs⟩
    rw [List.foldl_cons, join_text hRoot hAbove hs,
      ih hNext fun t ht => hBelow t (List.mem_cons_of_mem _ ht), List.append_assoc,
      List.singleton_append]

/-! ## Peeling -/

/-- Takes the last segment off a path so many times: what is left, and the segments in the order
in which they came off.  Nothing, if the path runs out of segments before. -/
def peel : Nat → String → Option (String × List String)
  | 0, path => some (path, [])
  | steps + 1, path =>
    match splitLast path with
    | some (parent, name) => (peel steps parent).map fun (top, names) => (top, name :: names)
    | none => none

theorem peel_succ_eq_some_iff {steps : Nat} {top : String} {names : List String} :
    peel (steps + 1) path = some (top, names) ↔
      ∃ parent name rest, splitLast path = some (parent, name) ∧
        peel steps parent = some (top, rest) ∧ names = name :: rest := by
  rw [peel]
  constructor
  · intro hPeel
    split at hPeel
    · rename_i parent name hSplit
      obtain ⟨⟨_, rest⟩, hRest, hSame⟩ := Option.map_eq_some_iff.1 hPeel
      cases hSame
      exact ⟨parent, name, rest, hSplit, hRest, rfl⟩
    · cases hPeel
  · rintro ⟨parent, name, rest, hSplit, hRest, rfl⟩
    rw [hSplit]
    exact Option.map_eq_some_iff.2 ⟨(top, rest), hRest, rfl⟩

/-- What comes off a normal path. -/
theorem peel_text_append (hRoot : IsRoot root) (above : List String)
    (hBelow : ∀ s ∈ below, Plain s) :
    peel below.length (Parts.text ⟨root, above ++ below⟩) =
      some (Parts.text ⟨root, above⟩, below.reverse) := by
  induction below using List.reverseRecOn with
  | nil =>
    rw [List.append_nil]
    rfl
  | append_singleton below name ih =>
    rw [List.forall_mem_append, List.forall_mem_singleton] at hBelow
    have hSplit := splitLast_text_concat hRoot (above ++ below) hBelow.2.ne_empty hBelow.2.no_slash
    rw [List.append_assoc] at hSplit
    rw [List.length_append, List.length_singleton, List.reverse_concat]
    exact peel_succ_eq_some_iff.2 ⟨_, name, _, hSplit, ih hBelow.1, rfl⟩

/-- Where nothing is left to peel, there is only one number of steps that leads there. -/
theorem peel_unique {m n : Nat} {top other : String} {names taken : List String}
    (hTop : peel m path = some (top, names)) (hEnd : splitLast top = none)
    (hOther : peel n path = some (other, taken)) (hOtherEnd : splitLast other = none) :
    m = n ∧ top = other ∧ names = taken := by
  induction m generalizing n path names taken with
  | zero =>
    cases hTop
    cases n with
    | zero =>
      cases hOther
      exact ⟨rfl, rfl, rfl⟩
    | succ n =>
      obtain ⟨_, _, _, hSplit, -⟩ := peel_succ_eq_some_iff.1 hOther
      rw [hEnd] at hSplit
      cases hSplit
  | succ m ih =>
    obtain ⟨parent, name, rest, hSplit, hRest, rfl⟩ := peel_succ_eq_some_iff.1 hTop
    cases n with
    | zero =>
      cases hOther
      rw [hSplit] at hOtherEnd
      cases hOtherEnd
    | succ n =>
      obtain ⟨_, _, rest', hSplit', hRest', rfl⟩ := peel_succ_eq_some_iff.1 hOther
      rw [hSplit] at hSplit'
      cases hSplit'
      obtain ⟨rfl, rfl, rfl⟩ := ih hRest hRest'
      exact ⟨rfl, rfl, rfl⟩

/-- A normal path is down to its root after as many steps as it has segments, and no others. -/
theorem peel_text_iff (hRoot : IsRoot root) (hPlain : ∀ s ∈ segments, Plain s) {steps : Nat}
    {top : String} {names : List String} :
    peel steps (Parts.text ⟨root, segments⟩) = some (top, names) ∧ splitLast top = none ↔
      steps = segments.length ∧ top = root ∧ names = segments.reverse := by
  have hPeel := peel_text_append hRoot [] hPlain
  rw [List.nil_append, text_nil] at hPeel
  constructor
  · rintro ⟨hTop, hEnd⟩
    exact peel_unique hTop hEnd hPeel (splitLast_root hRoot)
  · rintro ⟨rfl, rfl, rfl⟩
    exact ⟨hPeel, splitLast_root hRoot⟩

end Path

namespace Canonicalizer

variable {c : Canonicalizer} {p : CanonicalPath}

/-! ## Canonical paths -/

theorem Canonical.splitLast_text (hp : c.Canonical p) (hMore : ¬ IsRoot p.text) :
    ∃ parent name, splitLast p.text = some (parent.text, name) ∧ c.Canonical parent ∧
      parent.root = p.root ∧ parent.segments ++ [name] = p.segments := by
  have hText := hp.text_eq
  have hPlain := hp.plain
  have hFolded := hp.segments_folded
  rcases List.eq_nil_or_concat p.segments with hNil | ⟨above, name, hSegments⟩
  · rw [hNil, text_nil] at hText
    exact absurd (hText ▸ hp.isRoot) hMore
  · rw [List.concat_eq_append] at hSegments
    rw [hSegments] at hText hPlain hFolded ⊢
    rw [List.forall_mem_append, List.forall_mem_singleton] at hPlain hFolded
    refine ⟨CanonicalPath.of p.root above, name, ?_, ?_, ?_, ?_⟩
    · rw [hText]
      exact splitLast_text_concat hp.isRoot above hPlain.2.ne_empty hPlain.2.no_slash
    · exact canonical_of hp.isRoot hPlain.1 hp.root_folded hFolded.1
    · exact CanonicalPath.root_of hp.isRoot hPlain.1
    · rw [CanonicalPath.segments_of hp.isRoot hPlain.1]

/-- **Peeling.**  A canonical path that is no root is cut into its directory, which is canonical
as well, and a plain segment, and joining the two gives the path back.  Taken apart further it comes
to its root, after as many steps as it has segments and after no other number of steps.  What has
come off, joined to the root in reverse, all at once or one by one, gives the path back. -/
theorem peel_lossless {workingDirectory : String}
    (hDir : isAbsolute (slashes workingDirectory) = true) (directory : String)
    (caseSensitive : Bool) (path : String) :
    let c := Canonicalizer.of workingDirectory directory caseSensitive
    let p := c.canonicalize path
    (¬ IsRoot p.text → ∃ parent name, splitLast p.text = some (parent.text, name) ∧
        c.canonicalize parent.text = parent ∧ parent.text = dirname p.text ∧ Plain name ∧
        join parent.text name = p.text) ∧
      IsRoot p.root ∧ ∃ names,
        (∀ steps top taken, peel steps p.text = some (top, taken) ∧ splitLast top = none ↔
          steps = p.segments.length ∧ top = p.root ∧ taken = names) ∧
        join p.root (joined names.reverse) = p.text ∧ names.reverse.foldl join p.root = p.text := by
  intro c p
  have hc : c.Anchored := anchored_of hDir directory caseSensitive
  have hp : c.Canonical p := canonical_canonicalize hc path
  have hNone : ∀ s ∈ ([] : List String), Plain s := fun _ h => absurd h List.not_mem_nil
  have hJoin := join_joined hp.isRoot hNone hp.plain
  have hFold := foldl_join hp.isRoot hNone hp.plain
  rw [text_nil, List.nil_append, ← hp.text_eq] at hJoin hFold
  refine ⟨?_, hp.isRoot, p.segments.reverse, ?_, ?_, ?_⟩
  · intro hMore
    obtain ⟨parent, name, hSplit, hParent, hRoot, hSegments⟩ := hp.splitLast_text hMore
    have hName : Plain name := by
      apply hp.plain
      rw [← hSegments]
      exact List.mem_append_right _ List.mem_cons_self
    have hSome : parent.text ≠ "" := by
      rw [hParent.text_eq]
      exact text_ne_empty hParent.isRoot parent.segments
    refine ⟨parent, name, hSplit, hParent.canonicalize_text,
      (dirname_of_splitLast hSplit hSome).symm, hName, ?_⟩
    rw [hParent.text_eq, join_text hParent.isRoot hParent.plain hName, hRoot, hSegments, hp.text_eq]
  · intro steps top taken
    rw [hp.text_eq]
    exact peel_text_iff hp.isRoot hp.plain
  · rw [List.reverse_reverse]
    exact hJoin
  · rw [List.reverse_reverse]
    exact hFold

/-- A file on a drive: the last segment to come off is the one right behind the root. -/
theorem peel_lossless_drive :
    isAbsolute (slashes "/work") = true ∧
    let p := (Canonicalizer.of "/work" "." false).canonicalize "D:\\Src\\.\\/Main.ts"
    ¬ IsRoot p.text ∧
      (∃ parent name, splitLast p.text = some (parent, name) ∧ parent = dirname p.text ∧
        join parent name = p.text) ∧
      (p.segments.length = 2 ∧ ∃ names, peel 2 p.text = some ("d:/", names) ∧
        splitLast "d:/" = none ∧ join "d:/" (joined names.reverse) = p.text) := by
  have hDir : isAbsolute (slashes "/work") = true := by decide
  refine ⟨hDir, ?_⟩
  intro p
  have h := peel_lossless hDir "." false "D:\\Src\\.\\/Main.ts"
  have hEnds : endsWithSlash p.text = false := by decide +kernel
  have hMore : ¬ IsRoot p.text := by
    intro hRoot
    rw [hRoot.endsWithSlash] at hEnds
    cases hEnds
  have hRoot : p.root = "d:/" := by decide +kernel
  have hLength : p.segments.length = 2 := by decide +kernel
  obtain ⟨hCut, -, names, hPeel, hJoin, -⟩ := h
  obtain ⟨parent, name, hSplit, -, hParent, -, hBack⟩ := hCut hMore
  obtain ⟨hTop, hEnd⟩ := (hPeel 2 "d:/" names).2 ⟨hLength.symm, hRoot.symm, rfl⟩
  refine ⟨hMore, ⟨parent.text, name, hSplit, hParent, hBack⟩, hLength, names, hTop, hEnd, ?_⟩
  rw [← hRoot]
  exact hJoin

end Canonicalizer

end CompileHost
