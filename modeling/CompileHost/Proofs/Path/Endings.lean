import CompileHost.Proofs.Path.Links
import Mathlib.Combinatorics.Pigeonhole
import Mathlib.Data.Nat.Count

/-!
# Walks that end

The walk that replaces links goes by the path that it has come to and by nothing else, so it never
ends once it comes back to a path.  Between two links it only gets shorter, and where a link leads
depends on the entry of the link alone.  A walk that passes more links than there are has therefore
passed one twice, and comes back.  So whether a walk ends is seen within `walkBound` steps.

A real path has no links on it.  Only if it is looked up as another path, the walk may meet another
link behind it: if a backslash in one of its names is read as a slash, or a name that is no text as
some text.

* `not_ends_of_returns`: a walk that comes back does not end.
* `add_length_le`: how far the links of a walk may take it.
* `ends_iff`: a walk ends unless it comes back, and ends within the bound.
* `ends_of_plainNames`: where every name is a text without a backslash, every walk ends.
-/

namespace CompileHost

open CompileHost.Path CompileHost.Text FileTree

namespace LinkWalk

variable {t : FileTree} {v w : LinkWalk} {m n : Nat}

/-- After some steps there is no next one. -/
def Ends (t : FileTree) (w : LinkWalk) : Prop :=
  ∃ steps, next t (run t steps w) = none

/-- The walk leaves a path and comes back to it. -/
def Returns (t : FileTree) (w : LinkWalk) : Prop :=
  ∃ m n, m < n ∧ next t (run t m w) ≠ none ∧ (run t m w).current = (run t n w).current

/-! ## Steps -/

theorem run_succ (hNext : next t w = some v) (steps : Nat) :
    run t (steps + 1) w = run t steps v := by
  rw [run, hNext]

theorem run_add (t : FileTree) (m n : Nat) (w : LinkWalk) :
    run t (m + n) w = run t n (run t m w) := by
  induction m generalizing w with
  | zero => rw [Nat.zero_add, run]
  | succ m ih =>
    cases hNext : next t w with
    | none => rw [run_of_next_eq_none hNext, run_of_next_eq_none hNext, run_of_next_eq_none hNext]
    | some v => rw [Nat.add_right_comm, run_succ hNext, run_succ hNext, ih]

theorem next_run_succ (hNext : next t (run t n w) = some v) : run t (n + 1) w = v := by
  rw [run_add, run_succ hNext, run]

/-- Behind its end a walk stays where it is. -/
theorem next_run_of_le (hEnd : next t (run t m w) = none) (hLe : m ≤ n) :
    next t (run t n w) = none := by
  obtain ⟨k, rfl⟩ := Nat.exists_eq_add_of_le hLe
  rw [run_add, run_of_next_eq_none hEnd, hEnd]

theorem run_eq_of_ends (hm : next t (run t m w) = none) (hn : next t (run t n w) = none) :
    run t m w = run t n w := by
  rcases Nat.le_total m n with hLe | hLe
  · obtain ⟨k, rfl⟩ := Nat.exists_eq_add_of_le hLe
    rw [run_add, run_of_next_eq_none hm]
  · obtain ⟨k, rfl⟩ := Nat.exists_eq_add_of_le hLe
    rw [run_add, run_of_next_eq_none hn]

/-! ## Walks that come back -/

theorem next_congr (hSame : v.current = w.current) :
    (next t v).map current = (next t w).map current := by
  unfold next
  rw [hSame]
  cases linked? t w.current with
  | some real => rfl
  | none => cases splitLast w.current <;> rfl

theorem next_eq_none_congr (hSame : v.current = w.current) :
    next t v = none ↔ next t w = none := by
  rw [← Option.map_eq_none_iff (f := current), next_congr hSame, Option.map_eq_none_iff]

theorem current_run_congr (hSame : v.current = w.current) (steps : Nat) :
    (run t steps v).current = (run t steps w).current := by
  induction steps generalizing v w with
  | zero => exact hSame
  | succ steps ih =>
    have hNext := next_congr (t := t) hSame
    cases hv : next t v with
    | none =>
      have hw : next t w = none := (next_eq_none_congr hSame).1 hv
      rwa [run_of_next_eq_none hv, run_of_next_eq_none hw]
    | some v' =>
      cases hw : next t w with
      | none => exact absurd ((next_eq_none_congr hSame).2 hw) (by simp [hv])
      | some w' =>
        rw [hv, hw] at hNext
        rw [run_succ hv, run_succ hw]
        exact ih (Option.some.inj hNext)

theorem not_ends_of_returns (hReturns : Returns t w) : ¬ Ends t w := by
  classical
  obtain ⟨m, n, hLess, hGoes, hSame⟩ := hReturns
  intro hEnds
  have hLater : next t (run t n w) ≠ none := fun hEnd => hGoes ((next_eq_none_congr hSame).2 hEnd)
  have hEnd : next t (run t (Nat.find hEnds) w) = none := Nat.find_spec hEnds
  have hBefore : n < Nat.find hEnds :=
    Nat.lt_of_not_le fun hLe => hLater (next_run_of_le hEnd hLe)
  -- the first end lies behind the return, and so there is one as far behind the first visit
  obtain ⟨k, hk⟩ := Nat.exists_eq_add_of_le hBefore.le
  refine Nat.find_min hEnds (m := m + k) (by omega) ?_
  rw [hk, run_add] at hEnd
  rw [run_add]
  exact (next_eq_none_congr (current_run_congr hSame k)).2 hEnd

theorem not_ends_of_next_eq_self (hSelf : next t w = some w) : ¬ Ends t w := by
  refine not_ends_of_returns ⟨0, 1, Nat.zero_lt_one, ?_, ?_⟩
  · rw [run, hSelf]
    exact Option.some_ne_none w
  · rw [run_succ hSelf]

/-! ## Links on the way -/

/-- What the walk sees of a link: its entry, and a place that it leads to. -/
theorem exists_of_linked? {path real : String} (hLinked : linked? t path = some real) :
    ∃ p target q, t.locate false path = .ok p ∧ t.node? p = some (.link target) ∧
      (∃ n ≤ linkLimit, Reaches t .name n (start t.workingDirectory path) (names path) q) ∧
        plainPath (slashes (placePath q).text) = real := by
  obtain ⟨hLink, raw, hRaw, hReal⟩ := linked?_eq_some_iff.1 hLinked
  obtain ⟨p, target, hPlace, hNode⟩ := isLink_iff.1 hLink
  rw [realPath_eq_ok_iff (ne_empty_of_locate hPlace) (fits_of_locate hPlace).1] at hRaw
  obtain ⟨n, hn, q, hReaches, rfl⟩ := hRaw
  exact ⟨p, target, q, hPlace, hNode, ⟨n, hn, hReaches.by_name⟩, hReal⟩

theorem real_of_linked? (hDirectory : Real t t.workingDirectory) {path real : String}
    (hLinked : linked? t path = some real) :
    ∃ q, Real t q ∧ plainPath (slashes (placePath q).text) = real := by
  obtain ⟨-, -, q, -, -, ⟨n, -, hReaches⟩, hReal⟩ := exists_of_linked? hLinked
  exact ⟨q, hReaches.real (hDirectory.start _) fun s hs => isStep_of_mem_names hs, hReal⟩

theorem length_plainPath_le (path : String) : (plainPath path).length ≤ path.length := by
  unfold plainPath
  split
  · rename_i rest hStrip
    have hLength := congrArg List.length (stripStart?_eq_some_iff.1 hStrip)
    rw [List.length_append] at hLength
    rw [String.length_ofList, ← String.length_toList]
    omega
  · exact Nat.le_refl _

theorem length_le_of_linked? (hDirectory : Real t t.workingDirectory) {path real : String}
    (hLinked : linked? t path = some real) : real.length ≤ t.longestPath := by
  obtain ⟨q, hReal, rfl⟩ := real_of_linked? hDirectory hLinked
  have hSlashes : (slashes (placePath q).text).length = (placePath q).text.length := by
    rw [slashes, String.length_ofList, List.length_map, String.length_toList]
  calc (plainPath (slashes (placePath q).text)).length
      ≤ (slashes (placePath q).text).length := length_plainPath_le _
    _ = (placePath q).text.length := hSlashes
    _ ≤ (placePath q).size := RawText.length_text_le _
    _ ≤ t.longestPath := size_placePath_le_longestPath hReal

/-- What lies behind a link is decided by its entry. -/
theorem linked?_eq_of_locate (hDirectory : Real t t.workingDirectory) {path other : String}
    {p : Place} (hPath : t.locate false path = .ok p) (hOther : t.locate false other = .ok p)
    {real real' : String} (hLinked : linked? t path = some real)
    (hLinked' : linked? t other = some real') : real = real' := by
  obtain ⟨place, target, q, hPlace, hNode, ⟨m, hm, hTo⟩, rfl⟩ := exists_of_linked? hLinked
  obtain ⟨-, -, q', -, -, ⟨n, hn, hTo'⟩, rfl⟩ := exists_of_linked? hLinked'
  cases hPath.symm.trans hPlace
  obtain ⟨k, hReaches⟩ := reaches_target (hDirectory.start _)
    (fun _ hs => isStep_of_mem_names hs) hTo hm (walk_of_locate hPath) hNode
  obtain ⟨k', hReaches'⟩ := reaches_target (hDirectory.start _)
    (fun _ hs => isStep_of_mem_names hs) hTo' hn (walk_of_locate hOther) hNode
  rw [hReaches.unique hReaches']

/-! ## How far links may take a walk -/

/-- A step leads behind a link, or shortens the path. -/
theorem next_cases (hNext : next t w = some v) :
    linked? t w.current = some v.current ∨
      linked? t w.current = none ∧ v.current.length < w.current.length := by
  unfold next at hNext
  cases hLinked : linked? t w.current with
  | some real =>
    rw [hLinked] at hNext
    exact .inl (congrArg (fun w => some w.current) (Option.some.inj hNext))
  | none =>
    rw [hLinked] at hNext
    obtain ⟨⟨parent, name⟩, hSplit, rfl⟩ := Option.map_eq_some_iff.1 hNext
    exact .inr ⟨rfl, (splitLast_eq_some_iff.1 hSplit).length_lt⟩

/-- After some steps the walk stands at a link that leads somewhere. -/
def AtLink (t : FileTree) (w : LinkWalk) (steps : Nat) : Prop :=
  (linked? t (run t steps w).current).isSome = true

instance (t : FileTree) (w : LinkWalk) : DecidablePred (AtLink t w) := fun steps =>
  inferInstanceAs (Decidable ((linked? t (run t steps w).current).isSome = true))

/-- Every link may put the walk back to the length of the longest path, and nothing else does. -/
theorem add_length_le (hDirectory : Real t t.workingDirectory)
    (hGoes : ∀ i < n, next t (run t i w) ≠ none) :
    n + (run t n w).current.length ≤
      w.current.length + Nat.count (AtLink t w) n * (t.longestPath + 1) := by
  induction n with
  | zero => simp [run]
  | succ n ih =>
    have hBefore := ih fun i hi => hGoes i (Nat.lt_succ_of_lt hi)
    obtain ⟨v, hNext⟩ := Option.ne_none_iff_exists'.1 (hGoes n (Nat.lt_succ_self n))
    rw [next_run_succ hNext, Nat.count_succ]
    rcases next_cases hNext with hLinked | ⟨hNone, hShorter⟩
    · have hAt : AtLink t w n := by simp [AtLink, hLinked]
      have hLength := length_le_of_linked? hDirectory hLinked
      rw [if_pos hAt, Nat.add_mul]
      omega
    · have hNot : ¬ AtLink t w n := by simp [AtLink, hNone]
      simp only [if_neg hNot, Nat.add_zero]
      omega

/-- The places of the links of a tree. -/
def linkPlaces (t : FileTree) : List Place :=
  (t.entries.filter fun entry =>
    match entry.2 with
    | .link _ => true
    | _ => false).map (·.1)

theorem length_linkPlaces (t : FileTree) : (linkPlaces t).length = t.linkCount := by
  rw [linkPlaces, List.length_map, ← List.countP_eq_length_filter]
  rfl

theorem mem_linkPlaces {p : Place} {target : RawText} (hNode : t.node? p = some (.link target)) :
    p ∈ linkPlaces t := by
  have hSome : p ≠ [] := by
    rintro rfl
    cases hNode
  have hEntry := mem_entries_of_node? hNode hSome
  exact List.mem_map.2 ⟨(p, .link target), List.mem_filter.2 ⟨hEntry, rfl⟩, rfl⟩

/-- A walk that stands at a link more often than there are links stands at one of them twice. -/
theorem exists_same_link (hDirectory : Real t t.workingDirectory)
    (hMany : t.linkCount < Nat.count (AtLink t w) n) :
    ∃ i j real, i < j ∧ j < n ∧ linked? t (run t i w).current = some real ∧
      linked? t (run t j w).current = some real := by
  classical
  have hAt {i : Nat} (hi : AtLink t w i) : ∃ p target real,
      t.locate false (run t i w).current = .ok p ∧ t.node? p = some (.link target) ∧
        linked? t (run t i w).current = some real := by
    obtain ⟨real, hReal⟩ := Option.isSome_iff_exists.1 hi
    obtain ⟨p, target, -, hPlace, hNode, -⟩ := exists_of_linked? hReal
    exact ⟨p, target, real, hPlace, hNode, hReal⟩
  let place (i : Nat) : Place := (t.locate false (run t i w).current).toOption.getD []
  have hPlace {i : Nat} (hi : AtLink t w i) : t.locate false (run t i w).current = .ok (place i) := by
    obtain ⟨p, -, -, hLocate, -⟩ := hAt hi
    simp [place, hLocate, Except.toOption]
  have hCard : (linkPlaces t).toFinset.card < ((Finset.range n).filter (AtLink t w)).card := by
    rw [← Nat.count_eq_card_filter_range]
    exact Nat.lt_of_le_of_lt (List.toFinset_card_le _) (length_linkPlaces t ▸ hMany)
  have hMaps : ∀ i ∈ (Finset.range n).filter (AtLink t w), place i ∈ (linkPlaces t).toFinset := by
    intro i hi
    have hHere := (Finset.mem_filter.1 hi).2
    obtain ⟨p, target, -, hLocate, hNode, -⟩ := hAt hHere
    cases (hPlace hHere).symm.trans hLocate
    exact List.mem_toFinset.2 (mem_linkPlaces hNode)
  obtain ⟨i, hi, j, hj, hNe, hSame⟩ := Finset.exists_ne_map_eq_of_card_lt_of_maps_to hCard hMaps
  obtain ⟨hiRange, hiAt⟩ := Finset.mem_filter.1 hi
  obtain ⟨hjRange, hjAt⟩ := Finset.mem_filter.1 hj
  obtain ⟨-, -, real, -, -, hReal⟩ := hAt hiAt
  obtain ⟨-, -, real', -, -, hReal'⟩ := hAt hjAt
  obtain rfl : real = real' :=
    linked?_eq_of_locate hDirectory (hPlace hiAt) (hSame ▸ hPlace hjAt) hReal hReal'
  rcases Nat.lt_or_gt_of_ne hNe with hLess | hLess
  · exact ⟨i, j, real, hLess, Finset.mem_range.1 hjRange, hReal, hReal'⟩
  · exact ⟨j, i, real, hLess, Finset.mem_range.1 hiRange, hReal', hReal⟩

theorem current_run_succ {real : String} (hLinked : linked? t (run t n w).current = some real) :
    (run t (n + 1) w).current = real := by
  have hNext : next t (run t n w) = some { run t n w with current := real } := by
    rw [next, hLinked]
  rw [next_run_succ hNext]

/-! ## Ends -/

/-- A walk that has not ended within the bound comes back. -/
theorem returns_of_bound (hDirectory : Real t t.workingDirectory)
    (hGoes : next t (run t (t.walkBound w.current) w) ≠ none) : Returns t w := by
  have hAlways : ∀ i ≤ t.walkBound w.current, next t (run t i w) ≠ none :=
    fun i hi hEnd => hGoes (next_run_of_le hEnd hi)
  have hFar := add_length_le hDirectory fun i hi => hAlways i (Nat.le_of_lt hi)
  have hMany : t.linkCount < Nat.count (AtLink t w) (t.walkBound w.current) := by
    refine Nat.lt_of_not_le fun hFew => ?_
    have hProduct := Nat.mul_le_mul_right (t.longestPath + 1) (Nat.le_add_right_of_le hFew (k := 1))
    have hBound : t.walkBound w.current =
        w.current.length + (t.linkCount + 1) * (t.longestPath + 1) + 1 := rfl
    omega
  obtain ⟨i, j, real, hLess, hj, hi, hReal⟩ := exists_same_link hDirectory hMany
  refine ⟨i + 1, j + 1, Nat.succ_lt_succ hLess, hAlways _ (by omega), ?_⟩
  rw [current_run_succ hi, current_run_succ hReal]

theorem ends_iff (hDirectory : Real t t.workingDirectory) :
    (Ends t w ↔ ¬ Returns t w) ∧
      (Ends t w ↔ next t (run t (t.walkBound w.current) w) = none) := by
  have hReturns : ¬ Ends t w → Returns t w := fun hNever =>
    returns_of_bound hDirectory fun hEnd => hNever ⟨_, hEnd⟩
  refine ⟨⟨fun hEnds hBack => not_ends_of_returns hBack hEnds, ?_⟩, ?_, fun hEnd => ⟨_, hEnd⟩⟩
  · intro hForward
    exact Classical.byContradiction fun hNever => hForward (hReturns hNever)
  · intro hEnds
    exact Classical.byContradiction fun hGoes =>
      not_ends_of_returns (returns_of_bound hDirectory hGoes) hEnds

end LinkWalk

/-! ## Names that are looked up as they are -/

/-- Every name of a tree is a text, and holds no backslash. -/
def FileTree.PlainNames (t : FileTree) : Prop :=
  ∀ entry ∈ t.entries, ∀ name ∈ entry.1, name.IsText ∧ '\\' ∉ name.text.toList

instance (t : FileTree) : Decidable t.PlainNames :=
  inferInstanceAs (Decidable
    (∀ entry ∈ t.entries, ∀ name ∈ entry.1, name.IsText ∧ '\\' ∉ name.text.toList))

theorem FileTree.PlainNames.exists_segments {t : FileTree} (hPlain : t.PlainNames) {q : Place}
    (h : Real t q) : ∃ segments, q = placeOf segments ∧ ∀ s ∈ segments, Plain s := by
  have hNames : ∀ s ∈ q, s.IsText ∧ '\\' ∉ s.text.toList := by
    cases h with
    | root => exact fun s hs => absurd hs List.not_mem_nil
    | @entry p name node hAbove hDirectory hName hNode hLinkless =>
      exact hPlain (p ++ [name], node) (mem_entries_of_node? hNode (by simp))
  obtain ⟨segments, rfl⟩ := exists_placeOf fun s hs => (hNames s hs).1
  refine ⟨segments, rfl, fun s hs => ?_⟩
  have hMem : (s : RawText) ∈ placeOf segments := List.mem_map_of_mem hs
  have hName := h.isName s hMem
  obtain ⟨hSome, hSlash⟩ := isStep_ofText_iff.1 hName.toIsStep
  have hBackslash := (hNames s hMem).2
  rw [RawText.text_ofText] at hBackslash
  exact ⟨hSome, mt (congrArg RawText.ofText) hName.ne_dot, mt (congrArg RawText.ofText) hName.ne_up,
    hSlash, hBackslash⟩

namespace LinkWalk

variable {t : FileTree}

theorem ends_of_real {p : List String} (h : Real t (placeOf p)) (kept : List String) :
    Ends t ⟨rooted p, kept⟩ := by
  refine ⟨p.length, ?_⟩
  rw [run_of_real h kept (Nat.le_refl _)]
  exact next_root _ _

theorem ends_of_plainNames (hDirectory : Real t t.workingDirectory) (hPlain : t.PlainNames)
    (w : LinkWalk) : Ends t w := by
  induction hLength : w.current.length using Nat.strongRecOn generalizing w with
  | ind length ih =>
    cases hNext : next t w with
    | none => exact ⟨0, hNext⟩
    | some v =>
      have hEnds : Ends t v := by
        rcases next_cases hNext with hLinked | ⟨-, hShorter⟩
        -- what lies behind a link is a real path, spelled as it is
        · obtain ⟨q, hReal, hPath⟩ := real_of_linked? hDirectory hLinked
          obtain ⟨r, rfl, hNames⟩ := hPlain.exists_segments hReal
          rw [plainPath_slashes_placePath (fun s hs => (hNames s hs).isName.toIsStep)
            fun s hs => (hNames s hs).no_backslash] at hPath
          have hv : v = ⟨rooted r, v.kept⟩ := by rw [hPath]
          exact hv ▸ ends_of_real hReal v.kept
        · exact ih v.current.length (hLength ▸ hShorter) v rfl
      obtain ⟨steps, hEnd⟩ := hEnds
      exact ⟨steps + 1, by rwa [run_succ hNext]⟩

end LinkWalk

namespace Canonicalizer

/-- **Ends of link walks.**  The walk along a path ends exactly if it never comes back to a path
that it has left, and whether it ends is seen within the bound.  If it ends, the path without links
is what it has come to.  In a tree whose names are texts without backslashes every walk ends. -/
theorem linksEnd_iff {t : FileTree} (hDirectory : Real t t.workingDirectory) (c : Canonicalizer)
    (path : String) :
    let whole : LinkWalk := ⟨(c.canonicalize path).text, []⟩
    (c.linksEnd t path = true ↔ LinkWalk.Ends t whole) ∧
    (LinkWalk.Ends t whole ↔ ¬ LinkWalk.Returns t whole) ∧
    (∀ steps, LinkWalk.next t (LinkWalk.run t steps whole) = none →
      c.resolveLinks t path = c.canonicalize (LinkWalk.run t steps whole).path) ∧
    (t.PlainNames → LinkWalk.Ends t whole) := by
  intro whole
  obtain ⟨hReturns, hBound⟩ := LinkWalk.ends_iff (w := whole) hDirectory
  refine ⟨?_, hReturns, ?_, fun hPlain => LinkWalk.ends_of_plainNames hDirectory hPlain whole⟩
  · rw [hBound, linksEnd, Option.isNone_iff_eq_none]
  · intro steps hEnd
    have hWithin := hBound.1 ⟨steps, hEnd⟩
    have hSame : LinkWalk.run t (t.walkBound whole.current) whole = LinkWalk.run t steps whole :=
      LinkWalk.run_eq_of_ends hWithin hEnd
    rw [resolveLinks, ← hSame]

/-- The real path behind the link holds a backslash, but its other spelling leads nowhere. -/
theorem linksEnd_backslash :
    let t : FileTree := ⟨[(["x\\z"], .directory), (["a"], .link "x\\z")], []⟩
    let c : Canonicalizer := ⟨"/", true⟩
    Real t t.workingDirectory ∧ LinkWalk.Ends t ⟨(c.canonicalize "a").text, []⟩ ∧
      c.resolveLinks t "a" = ⟨"/x/z"⟩ := by
  intro t c
  have hRoot : Real t t.workingDirectory := .root
  obtain ⟨hEnds, -, hResolved, -⟩ := linksEnd_iff hRoot c "a"
  refine ⟨hRoot, hEnds.1 (by decide +kernel), (hResolved 3 (by decide +kernel)).trans ?_⟩
  decide +kernel

/-- Links that lead to a directory whose path is looked up as their own: for its backslash, and for
a byte that is no character. -/
theorem walk_never_ends :
    let t : FileTree := ⟨[(["tmp"], .directory), (["tmp", "tsfs"], .directory),
      (["tmp", "tsfs", "x\\y"], .directory), (["tmp", "tsfs", "x"], .directory),
      (["tmp", "tsfs", "x", "y"], .link "../x\\y")], ["tmp", "tsfs"]⟩
    let c : Canonicalizer := ⟨"/tmp/tsfs", true⟩
    let raw : FileTree := ⟨[([⟨[0xff]⟩], .directory), (["\ufffd"], .link ⟨[0xff]⟩)], []⟩
    ¬ LinkWalk.Ends t ⟨(c.canonicalize "x/y").text, []⟩ ∧
      ¬ LinkWalk.Ends raw ⟨(c.canonicalize "/\ufffd").text, []⟩ := by
  intro t c raw
  exact ⟨LinkWalk.not_ends_of_next_eq_self (by decide +kernel),
    LinkWalk.not_ends_of_next_eq_self (by decide +kernel)⟩

end Canonicalizer

end CompileHost
