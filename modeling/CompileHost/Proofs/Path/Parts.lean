import CompileHost.Path.Lexical

/-!
# Roots and segments

A path with a root is taken apart into exactly the root and the segments that it is made of.  Along
plain segments nothing is resolved, and every `..` behind them takes the last one away.

* `parts_append`: the parts of a path with a root.
* `pieces_joined`: segments are found again between the slashes.
* `resolveDots_climb`: what is left of a way that first leads up.
* `exists_join_eq`: what is joined to a normal path stands behind its segments.
-/

namespace CompileHost.Text

/-! ## Splitting and joining -/

variable {α : Type} {sep : α}

theorem splitAt_of_not_mem [DecidableEq α] {as : List α} (hSep : sep ∉ as) :
    splitAt sep as = [as] := by
  induction as with
  | nil => rfl
  | cons a as ih =>
    rw [List.mem_cons, not_or] at hSep
    rw [splitAt, if_neg (Ne.symm hSep.1), ih hSep.2]

theorem splitAt_append_of_not_mem [DecidableEq α] {as rest : List α} (hSep : sep ∉ as)
    {piece : List α} {pieces : List (List α)} (hRest : splitAt sep rest = piece :: pieces) :
    splitAt sep (as ++ rest) = (as ++ piece) :: pieces := by
  induction as with
  | nil => exact hRest
  | cons a as ih =>
    rw [List.mem_cons, not_or] at hSep
    rw [List.cons_append, splitAt, if_neg (Ne.symm hSep.1), ih hSep.2]
    rfl

theorem splitAt_append_sep [DecidableEq α] (sep : α) (as rest : List α) :
    splitAt sep (as ++ sep :: rest) = splitAt sep as ++ splitAt sep rest := by
  induction as with
  | nil => exact if_pos rfl
  | cons a as ih =>
    rw [List.cons_append, splitAt, splitAt, ih]
    by_cases hSep : a = sep
    · rw [if_pos hSep, if_pos hSep, List.cons_append]
    · rw [if_neg hSep, if_neg hSep]
      cases hPieces : splitAt sep as with
      | nil => exact absurd hPieces (splitAt_ne_nil sep as)
      | cons piece pieces => rfl

theorem joinWith_concat {pieces : List (List α)} (hSome : pieces ≠ []) (piece : List α) :
    joinWith sep (pieces ++ [piece]) = joinWith sep pieces ++ sep :: piece := by
  induction pieces with
  | nil => exact absurd rfl hSome
  | cons first rest ih =>
    by_cases hRest : rest = []
    · subst hRest
      rfl
    · rw [List.cons_append, joinWith_cons first (by simp), ih hRest, joinWith_cons first hRest,
        List.append_assoc, List.cons_append]

theorem splitAt_joinWith [DecidableEq α] {pieces : List (List α)} (hSome : pieces ≠ [])
    (hSep : ∀ piece ∈ pieces, sep ∉ piece) : splitAt sep (joinWith sep pieces) = pieces := by
  induction pieces with
  | nil => exact absurd rfl hSome
  | cons piece rest ih =>
    have hPiece := splitAt_of_not_mem (hSep piece List.mem_cons_self)
    by_cases hRest : rest = []
    · subst hRest
      exact hPiece
    · rw [joinWith_cons piece hRest, splitAt_append_sep, hPiece,
        ih hRest fun other hOther => hSep other (List.mem_cons_of_mem _ hOther)]
      rfl

theorem mem_joinWith {a : α} {pieces : List (List α)} (hMem : a ∈ joinWith sep pieces) :
    a = sep ∨ ∃ piece ∈ pieces, a ∈ piece := by
  induction pieces with
  | nil => cases hMem
  | cons piece rest ih =>
    by_cases hRest : rest = []
    · subst hRest
      exact Or.inr ⟨piece, List.mem_cons_self, hMem⟩
    · rw [joinWith_cons piece hRest, List.mem_append, List.mem_cons] at hMem
      rcases hMem with hHere | hSep | hLater
      · exact Or.inr ⟨piece, List.mem_cons_self, hHere⟩
      · exact Or.inl hSep
      · obtain hSep | ⟨other, hOther, ha⟩ := ih hLater
        · exact Or.inl hSep
        · exact Or.inr ⟨other, List.mem_cons_of_mem _ hOther, ha⟩

theorem mem_joinWith_of_mem {a : α} {pieces : List (List α)} {piece : List α}
    (hPiece : piece ∈ pieces) (ha : a ∈ piece) : a ∈ joinWith sep pieces := by
  induction pieces with
  | nil => cases hPiece
  | cons first rest ih =>
    by_cases hRest : rest = []
    · subst hRest
      rwa [List.mem_singleton.1 hPiece] at ha
    · rw [joinWith_cons first hRest, List.mem_append, List.mem_cons]
      rcases List.mem_cons.1 hPiece with rfl | hLater
      · exact Or.inl ha
      · exact Or.inr (Or.inr (ih hLater))

end CompileHost.Text

namespace CompileHost.Path

open Text

/-! ## Backslashes -/

theorem slashes_eq_self {path : String} (hNone : '\\' ∉ path.toList) : slashes path = path := by
  have hSame : path.toList.map (fun c => if c = '\\' then '/' else c) = path.toList.map id := by
    apply List.map_congr_left
    intro c hc
    refine if_neg ?_
    rintro rfl
    exact hNone hc
  rw [slashes, hSame, List.map_id, String.ofList_toList]

theorem not_mem_slashes (path : String) : '\\' ∉ (slashes path).toList := by
  rw [slashes, String.toList_ofList]
  intro hMem
  obtain ⟨c, -, hc⟩ := List.mem_map.1 hMem
  split at hc
  · exact absurd hc (by decide)
  · contradiction

theorem slashes_append (a b : String) : slashes (a ++ b) = slashes a ++ slashes b := by
  simp [slashes]

theorem slashes_slashes (path : String) : slashes (slashes path) = slashes path :=
  slashes_eq_self (not_mem_slashes path)

/-! ## Segments between slashes -/

/-- What stands between the slashes of a text. -/
def pieces (text : String) : List String :=
  (splitAt '/' text.toList).map String.ofList

/-- Segments with slashes between them. -/
def joined (segments : List String) : String :=
  String.ofList (joinWith '/' (segments.map String.toList))

theorem text_eq (root : String) (segments : List String) :
    Parts.text ⟨root, segments⟩ = root ++ joined segments := rfl

theorem joined_cons (s : String) {segments : List String} (hSome : segments ≠ []) :
    joined (s :: segments) = s ++ "/" ++ joined segments := by
  apply String.toList_inj.1
  rw [joined, List.map_cons, joinWith_cons _ (by simpa using hSome)]
  simp [joined]

theorem joined_singleton (s : String) : joined [s] = s :=
  String.ofList_toList

theorem joined_append {above below : List String} (hAbove : above ≠ []) (hBelow : below ≠ []) :
    joined (above ++ below) = joined above ++ "/" ++ joined below := by
  induction above with
  | nil => exact absurd rfl hAbove
  | cons s above ih =>
    by_cases hRest : above = []
    · subst hRest
      rw [List.singleton_append, joined_cons s hBelow, joined_singleton]
    · rw [List.cons_append, joined_cons s (by simp [hRest]), ih hRest, joined_cons s hRest]
      simp only [String.append_assoc]

theorem joined_concat {above : List String} (hSome : above ≠ []) (name : String) :
    joined (above ++ [name]) = joined above ++ "/" ++ name := by
  rw [joined_append hSome (List.cons_ne_nil _ _), joined_singleton]

theorem pieces_append_slash (a b : String) :
    pieces (a ++ "/" ++ b) = pieces a ++ pieces b := by
  have hText : (a ++ "/" ++ b).toList = a.toList ++ '/' :: b.toList := by simp
  rw [pieces, hText, splitAt_append_sep, List.map_append]
  rfl

theorem pieces_empty : pieces "" = [""] := rfl

theorem pieces_ne_nil (text : String) : pieces text ≠ [] := by
  simp [pieces, splitAt_ne_nil]

/-- Nothing is lost between the slashes. -/
theorem joined_pieces (text : String) : joined (pieces text) = text := by
  rw [joined, pieces, List.map_map]
  simp [Function.comp_def, joinWith_splitAt]

theorem pieces_joined {segments : List String} (hSome : segments ≠ [])
    (hSlash : ∀ s ∈ segments, '/' ∉ s.toList) : pieces (joined segments) = segments := by
  have hPieces : ∀ piece ∈ segments.map String.toList, '/' ∉ piece := by
    intro piece hPiece
    obtain ⟨s, hs, rfl⟩ := List.mem_map.1 hPiece
    exact hSlash s hs
  rw [pieces, joined, String.toList_ofList, splitAt_joinWith (by simpa using hSome) hPieces,
    List.map_map]
  simp [Function.comp_def]

theorem not_mem_of_mem_pieces {c : Char} {text s : String} (hNone : c ∉ text.toList)
    (hs : s ∈ pieces text) : c ∉ s.toList := by
  intro hc
  obtain ⟨piece, hPiece, rfl⟩ := List.mem_map.1 hs
  rw [String.toList_ofList] at hc
  have hIn : c ∈ joinWith '/' (splitAt '/' text.toList) := mem_joinWith_of_mem hPiece hc
  rw [joinWith_splitAt] at hIn
  exact hNone hIn

theorem not_mem_joined {c : Char} {segments : List String} (hSlash : c ≠ '/')
    (hNone : ∀ s ∈ segments, c ∉ s.toList) : c ∉ (joined segments).toList := by
  intro hc
  rw [joined, String.toList_ofList] at hc
  rcases mem_joinWith hc with hSep | ⟨piece, hPiece, hMem⟩
  · exact hSlash hSep
  · obtain ⟨s, hs, rfl⟩ := List.mem_map.1 hPiece
    exact hNone s hs hMem

theorem slash_not_mem_of_mem_pieces {text s : String} (hs : s ∈ pieces text) :
    '/' ∉ s.toList := by
  obtain ⟨piece, hPiece, rfl⟩ := List.mem_map.1 hs
  rw [String.toList_ofList]
  exact not_mem_of_mem_splitAt hPiece

/-! ## Roots -/

/-- What an absolute path begins with. -/
def IsRoot (root : String) : Prop :=
  root = "/" ∨ ∃ letter : Char, letter.isAlpha = true ∧ root = String.ofList [letter, ':', '/']

theorem IsRoot.ne_empty {root : String} (hRoot : IsRoot root) : root ≠ "" := by
  rcases hRoot with rfl | ⟨letter, -, rfl⟩
  · decide
  · intro h
    have hLetters := congrArg String.toList h
    rw [String.toList_ofList] at hLetters
    cases hLetters

theorem IsRoot.endsWithSlash {root : String} (hRoot : IsRoot root) :
    endsWithSlash root = true := by
  rcases hRoot with rfl | ⟨letter, -, rfl⟩
  · decide
  · rw [Path.endsWithSlash, String.toList_ofList]
    rfl

theorem rootLength_append {root : String} (hRoot : IsRoot root) (cs : List Char) :
    rootLength (root.toList ++ cs) = root.toList.length := by
  rcases hRoot with rfl | ⟨letter, hLetter, rfl⟩
  · rfl
  · rw [String.toList_ofList, List.cons_append, List.cons_append, List.cons_append]
    have hSlash : letter ≠ '/' := by
      rintro rfl
      exact absurd hLetter (by decide)
    rw [rootLength.eq_2 _ _ (by simpa using hSlash), if_pos hLetter]
    rfl

theorem text_nil (root : String) : Parts.text ⟨root, []⟩ = root :=
  String.append_empty

theorem text_ne_empty {root : String} (hRoot : IsRoot root) (segments : List String) :
    Parts.text ⟨root, segments⟩ ≠ "" := by
  intro hEmpty
  have hLetters := congrArg String.toList hEmpty
  rw [text_eq, String.toList_append, String.toList_empty, List.append_eq_nil_iff] at hLetters
  exact hRoot.ne_empty (String.toList_inj.1 hLetters.1)

theorem isAbsolute_append {root : String} (hRoot : IsRoot root) (rest : String) :
    isAbsolute (root ++ rest) = true := by
  rw [isAbsolute, String.toList_append, rootLength_append hRoot, decide_eq_true_iff,
    List.length_pos_iff]
  exact fun h => hRoot.ne_empty (String.toList_inj.1 h)

theorem exists_root_of_rootLength {cs : List Char} (hSome : 0 < rootLength cs) :
    ∃ root rest, IsRoot root ∧ cs = root.toList ++ rest := by
  revert hSome
  fun_cases rootLength cs with
  | case1 rest => exact fun _ => ⟨"/", rest, Or.inl rfl, rfl⟩
  | case2 letter rest _ hLetter =>
    intro _
    refine ⟨String.ofList [letter, ':', '/'], rest, Or.inr ⟨letter, hLetter, rfl⟩, ?_⟩
    rw [String.toList_ofList]
    rfl
  | case3 => exact fun h => absurd h (Nat.lt_irrefl 0)
  | case4 => exact fun h => absurd h (Nat.lt_irrefl 0)

theorem exists_root_of_isAbsolute {path : String} (hAbs : isAbsolute path = true) :
    ∃ root rest, IsRoot root ∧ path = root ++ rest := by
  obtain ⟨root, rest, hRoot, hPath⟩ := exists_root_of_rootLength (decide_eq_true_iff.1 hAbs)
  refine ⟨root, String.ofList rest, hRoot, ?_⟩
  rw [← String.ofList_toList (s := path), hPath, String.ofList_append, String.ofList_toList]

theorem parts_append {root : String} (hRoot : IsRoot root) (rest : String) :
    parts (root ++ rest) = ⟨root, pieces rest⟩ := by
  rw [parts, String.toList_append, rootLength_append hRoot]
  simp [pieces]

/-! ## Dots -/

/-- A segment that stands for itself. -/
structure Plain (segment : String) : Prop where
  ne_empty : segment ≠ ""
  ne_dot : segment ≠ "."
  ne_up : segment ≠ ".."
  no_slash : '/' ∉ segment.toList
  no_backslash : '\\' ∉ segment.toList

theorem pushSegment_plain {segment : String} (hPlain : Plain segment) (rooted : Bool)
    (walked : List String) : pushSegment rooted walked segment = segment :: walked := by
  rw [pushSegment.eq_def, if_neg (not_or.2 ⟨hPlain.ne_empty, hPlain.ne_dot⟩), if_neg hPlain.ne_up]

theorem pushSegment_up {walked : List String} (hWalked : ∀ s ∈ walked, Plain s) :
    pushSegment true walked ".." = walked.drop 1 := by
  rw [pushSegment.eq_def, if_neg (by decide), if_pos rfl]
  cases walked with
  | nil => rfl
  | cons nearest above => exact if_pos (hWalked nearest List.mem_cons_self).ne_up

theorem foldl_pushSegment_plain {segments : List String} (hPlain : ∀ s ∈ segments, Plain s)
    (rooted : Bool) (walked : List String) :
    segments.foldl (pushSegment rooted) walked = segments.reverse ++ walked := by
  induction segments generalizing walked with
  | nil => rfl
  | cons s segments ih =>
    rw [List.foldl_cons, pushSegment_plain (hPlain s List.mem_cons_self),
      ih fun t ht => hPlain t (List.mem_cons_of_mem _ ht)]
    simp

theorem foldl_pushSegment_ups {walked : List String} (hWalked : ∀ s ∈ walked, Plain s)
    (ups : Nat) :
    (List.replicate ups "..").foldl (pushSegment true) walked = walked.drop ups := by
  induction ups generalizing walked with
  | zero => rfl
  | succ ups ih =>
    rw [List.replicate_succ, List.foldl_cons, pushSegment_up hWalked,
      ih fun s hs => hWalked s (List.mem_of_mem_drop hs), List.drop_drop, Nat.add_comm]

/-- A segment that leads to another place. -/
def moves (segment : String) : Bool :=
  segment ≠ "" && segment ≠ "."

theorem pushSegment_of_not_moves {segment : String} (hStays : moves segment = false)
    (rooted : Bool) (walked : List String) : pushSegment rooted walked segment = walked := by
  rw [pushSegment.eq_def, if_pos]
  by_cases hEmpty : segment = ""
  · exact Or.inl hEmpty
  · exact Or.inr (by simpa [moves, hEmpty] using hStays)

/-- Segments that lead nowhere may be left out. -/
theorem foldl_pushSegment_filter (rooted : Bool) (walked segments : List String) :
    (segments.filter moves).foldl (pushSegment rooted) walked =
      segments.foldl (pushSegment rooted) walked := by
  induction segments generalizing walked with
  | nil => rfl
  | cons segment segments ih =>
    cases hMoves : moves segment with
    | true => rw [List.filter_cons_of_pos hMoves, List.foldl_cons, List.foldl_cons, ih]
    | false =>
      rw [List.filter_cons_of_neg (Bool.eq_false_iff.1 hMoves), List.foldl_cons, ih,
        pushSegment_of_not_moves hMoves]

theorem resolveDots_append_filter (rooted : Bool) (above segments : List String) :
    resolveDots rooted (above ++ segments.filter moves) =
      resolveDots rooted (above ++ segments) := by
  rw [resolveDots, resolveDots, List.foldl_append, List.foldl_append, foldl_pushSegment_filter]

/-- Plain segments are resolved already. -/
theorem resolveDots_of_plain {segments : List String} (hPlain : ∀ s ∈ segments, Plain s)
    (rooted : Bool) : resolveDots rooted segments = segments := by
  rw [resolveDots, foldl_pushSegment_plain hPlain, List.append_nil, List.reverse_reverse]

/-- Steps up take away the last segments, and are lost at the root. -/
theorem resolveDots_climb {above below : List String} (hAbove : ∀ s ∈ above, Plain s)
    (hBelow : ∀ s ∈ below, Plain s) (ups : Nat) :
    resolveDots true (above ++ (List.replicate ups ".." ++ below)) =
      above.take (above.length - ups) ++ below := by
  have hReverse : ∀ s ∈ above.reverse ++ [], Plain s := by
    intro s hs
    exact hAbove s (by simpa using hs)
  rw [resolveDots, List.foldl_append, List.foldl_append, foldl_pushSegment_plain hAbove,
    foldl_pushSegment_ups hReverse, foldl_pushSegment_plain hBelow, List.reverse_append,
    List.reverse_reverse, List.append_nil, List.drop_reverse, List.reverse_reverse]

/-- An empty segment leaves no trace. -/
theorem resolveDots_append_empty (rooted : Bool) (segments : List String) :
    resolveDots rooted (segments ++ [""]) = resolveDots rooted segments := by
  rw [resolveDots, List.foldl_append]
  rfl

/-- Segments are resolved as they are found again between the slashes. -/
theorem resolveDots_append_pieces {segments : List String}
    (hSlash : ∀ s ∈ segments, '/' ∉ s.toList) (rooted : Bool) (above : List String) :
    resolveDots rooted (above ++ pieces (joined segments)) =
      resolveDots rooted (above ++ segments) := by
  by_cases hSome : segments = []
  · subst hSome
    rw [show pieces (joined []) = [""] from rfl, resolveDots_append_empty, List.append_nil]
  · rw [pieces_joined hSome hSlash]

theorem plain_pushSegment {walked : List String} {segment : String}
    (hWalked : ∀ s ∈ walked, Plain s) (hSlash : '/' ∉ segment.toList)
    (hBackslash : '\\' ∉ segment.toList) : ∀ s ∈ pushSegment true walked segment, Plain s := by
  by_cases hDot : segment = "" ∨ segment = "."
  · rwa [pushSegment.eq_def, if_pos hDot]
  · by_cases hUp : segment = ".."
    · subst hUp
      rw [pushSegment_up hWalked]
      exact fun s hs => hWalked s (List.mem_of_mem_drop hs)
    · rw [not_or] at hDot
      have hPlain : Plain segment := ⟨hDot.1, hDot.2, hUp, hSlash, hBackslash⟩
      rw [pushSegment_plain hPlain]
      intro s hs
      rcases List.mem_cons.1 hs with rfl | hs
      · exact hPlain
      · exact hWalked s hs

/-- What is left below a root is plain. -/
theorem plain_resolveDots {segments : List String}
    (hSlash : ∀ s ∈ segments, '/' ∉ s.toList) (hBackslash : ∀ s ∈ segments, '\\' ∉ s.toList) :
    ∀ s ∈ resolveDots true segments, Plain s := by
  have hFold : ∀ walked : List String, (∀ s ∈ walked, Plain s) →
      ∀ s ∈ segments.foldl (pushSegment true) walked, Plain s := by
    induction segments with
    | nil => exact fun _ hWalked => hWalked
    | cons segment segments ih =>
      intro walked hWalked
      rw [List.foldl_cons]
      refine ih (fun s hs => hSlash s (List.mem_cons_of_mem _ hs))
        (fun s hs => hBackslash s (List.mem_cons_of_mem _ hs)) _ ?_
      exact plain_pushSegment hWalked (hSlash _ List.mem_cons_self)
        (hBackslash _ List.mem_cons_self)
  intro s hs
  exact hFold [] (fun _ h => absurd h List.not_mem_nil) s (List.mem_reverse.1 hs)

/-! ## Normal paths -/

theorem normalize_append {root rest : String} (hRoot : IsRoot root)
    (hSlashes : slashes (root ++ rest) = root ++ rest) :
    normalize (root ++ rest) = Parts.text ⟨root, resolveDots true (pieces rest)⟩ := by
  rw [normalize, hSlashes, parts_append hRoot]
  simp only [ne_eq, hRoot.ne_empty, not_false_eq_true, decide_true]
  exact if_neg (text_ne_empty hRoot _)

theorem parts_text {root : String} {segments : List String} (hRoot : IsRoot root)
    (hPlain : ∀ s ∈ segments, Plain s) :
    (parts (Parts.text ⟨root, segments⟩)).root = root ∧
      (parts (Parts.text ⟨root, segments⟩)).segments.filter (· ≠ "") = segments := by
  rw [text_eq, parts_append hRoot]
  refine ⟨rfl, ?_⟩
  by_cases hSome : segments = []
  · subst hSome
    rfl
  · rw [pieces_joined hSome fun s hs => (hPlain s hs).no_slash, List.filter_eq_self]
    exact fun s hs => decide_eq_true (hPlain s hs).ne_empty

theorem joined_ne_empty {segments : List String} (hSome : segments ≠ [])
    (hPlain : ∀ s ∈ segments, Plain s) : joined segments ≠ "" := by
  intro hEmpty
  have hPieces := pieces_joined hSome fun s hs => (hPlain s hs).no_slash
  rw [hEmpty, pieces_empty] at hPieces
  exact (hPlain "" (hPieces ▸ List.mem_cons_self)).ne_empty rfl

theorem endsWithSlash_text {segments : List String} (hSome : segments ≠ [])
    (hPlain : ∀ s ∈ segments, Plain s) (root : String) :
    endsWithSlash (Parts.text ⟨root, segments⟩) = false := by
  have hPieces := pieces_joined hSome fun s hs => (hPlain s hs).no_slash
  have hEmpty : "" ∉ segments := fun h => (hPlain "" h).ne_empty rfl
  have hText : (joined segments).toList ≠ [] := fun h =>
    joined_ne_empty hSome hPlain (String.toList_inj.1 h)
  rw [endsWithSlash, decide_eq_false_iff_not, text_eq, String.toList_append,
    List.getLast?_append, List.getLast?_eq_some_getLast hText, Option.some_or,
    ← List.getLast?_eq_some_getLast hText, List.getLast?_eq_some_iff]
  rintro ⟨before, hLast⟩
  have hJoined : joined segments = String.ofList before ++ "/" ++ "" := by
    apply String.toList_inj.1
    rw [hLast]
    simp
  rw [hJoined, pieces_append_slash, pieces_empty] at hPieces
  exact hEmpty (hPieces ▸ List.mem_append_right _ List.mem_cons_self)

theorem backslash_not_mem_text {root : String} {segments : List String} (hRoot : IsRoot root)
    (hPlain : ∀ s ∈ segments, Plain s) :
    '\\' ∉ (Parts.text ⟨root, segments⟩).toList := by
  rw [Path.text_eq, String.toList_append, List.mem_append, not_or]
  constructor
  · rcases hRoot with rfl | ⟨letter, hLetter, rfl⟩
    · decide
    · rw [String.toList_ofList]
      rintro (_ | ⟨_, _ | ⟨_, _ | ⟨_, h⟩⟩⟩)
      · exact absurd hLetter (by decide)
      · cases h
  · exact not_mem_joined (by decide) fun s hs => (hPlain s hs).no_backslash

/-! ## Joined paths -/

theorem slashes_join {base : String} (hBase : '\\' ∉ base.toList) (rest : String) :
    slashes (join base rest) = join base (slashes rest) := by
  have hEmpty : slashes rest = "" ↔ rest = "" := by
    rw [← String.toList_inj, slashes, String.toList_ofList]
    simp
  unfold join
  by_cases hRest : rest = ""
  · rw [if_pos hRest, if_pos (hEmpty.2 hRest), slashes_eq_self hBase]
  · rw [if_neg hRest, if_neg (mt hEmpty.1 hRest)]
    split
    · rw [slashes_append, slashes_eq_self hBase]
    · rw [slashes_append, slashes_append, slashes_eq_self hBase]
      rfl

theorem exists_join_root (root base rest : String) :
    ∃ whole, join (root ++ base) rest = root ++ whole := by
  unfold join
  split
  · exact ⟨base, rfl⟩
  · split
    · exact ⟨base ++ rest, String.append_assoc⟩
    · exact ⟨base ++ "/" ++ rest, by simp only [String.append_assoc]⟩

/-- What is joined to a normal path stands behind its segments. -/
theorem exists_join_eq {root : String} {segments : List String} (hRoot : IsRoot root)
    (hPlain : ∀ s ∈ segments, Plain s) (rest : String) :
    ∃ whole, join (Parts.text ⟨root, segments⟩) rest = root ++ whole ∧
      resolveDots true (pieces whole) = resolveDots true (segments ++ pieces rest) := by
  rw [text_eq]
  by_cases hRest : rest = ""
  · subst hRest
    refine ⟨joined segments, if_pos rfl, ?_⟩
    rw [pieces_empty, resolveDots_append_empty]
    exact resolveDots_append_pieces (fun s hs => (hPlain s hs).no_slash) true []
  · by_cases hSome : segments = []
    · subst hSome
      refine ⟨rest, ?_, rfl⟩
      have hText : root ++ joined [] = root := text_nil root
      rw [join, if_neg hRest, hText, if_pos hRoot.endsWithSlash]
    · have hPieces := pieces_joined hSome fun s hs => (hPlain s hs).no_slash
      refine ⟨joined segments ++ "/" ++ rest, ?_, ?_⟩
      · have hOpen := endsWithSlash_text hSome hPlain root
        rw [text_eq] at hOpen
        rw [join, if_neg hRest, hOpen, if_neg Bool.false_ne_true]
        simp only [String.append_assoc]
      · rw [pieces_append_slash, hPieces]

end CompileHost.Path
