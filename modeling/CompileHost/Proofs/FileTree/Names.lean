import CompileHost.FileTree.Basic
import CompileHost.Proofs.Text.Utf8

/-!
# Names and paths

The path of a place has the names of the place, and no other place has it.  Names that are texts
make a path that is a text, and are found in it where the text is cut at its slashes.

* `names_placePath`, `placePath_inj`: a place and its path.
* `ofText_rooted`, `names_ofText`: places and paths that are texts.
-/

namespace CompileHost

open CompileHost.Path CompileHost.Text

/-! ## Raw texts -/

namespace RawText

variable {raw : RawText} {s s' : String}

@[simp]
theorem text_ofText (s : String) : (ofText s).text = s :=
  decodeLossy_utf8Bytes s

theorem ofText_inj : ofText s = ofText s' ↔ s = s' := by
  constructor
  · intro hSame
    rw [← text_ofText s, hSame, text_ofText]
  · exact congrArg ofText

/-- What is read from the bytes is what they stand for. -/
def IsText (raw : RawText) : Prop :=
  ofText raw.text = raw

instance (raw : RawText) : Decidable raw.IsText :=
  inferInstanceAs (Decidable (ofText raw.text = raw))

theorem length_text_le (raw : RawText) : raw.text.length ≤ raw.size :=
  length_decodeLossy_le raw.bytes

theorem ofText_append_bytes (s s' : String) :
    (ofText (s ++ s')).bytes = (ofText s).bytes ++ (ofText s').bytes :=
  utf8Bytes_append s s'

theorem bytes_ofText_eq_nil_iff : (ofText s).bytes = [] ↔ s = "" := by
  constructor
  · intro hNil
    have hSame : ofText s = ofText "" := by
      rw [← RawText.mk.injEq] at hNil
      exact hNil
    exact ofText_inj.1 hSame
  · rintro rfl
    rfl

theorem slash_mem_iff : slash ∈ (ofText s).bytes ↔ '/' ∈ s.toList :=
  mem_utf8Bytes_iff (by decide)

end RawText

namespace FileTree

variable {p q : Place} {name : RawText}

/-! ## Names of paths -/

/-- What stands between the slashes of a path. -/
structure IsStep (s : RawText) : Prop where
  ne_empty : s.bytes ≠ []
  no_slash : RawText.slash ∉ s.bytes

/-- A name that a walk looks up. -/
structure IsName (s : RawText) : Prop extends IsStep s where
  ne_dot : s ≠ "."
  ne_up : s ≠ ".."

/-- A name that an entry can have. -/
structure IsEntryName (s : RawText) : Prop extends IsName s where
  short : s.size ≤ nameLimit

instance (s : RawText) : Decidable (IsEntryName s) :=
  decidable_of_iff (s.bytes ≠ [] ∧ RawText.slash ∉ s.bytes ∧ s ≠ "." ∧ s ≠ ".." ∧ s.size ≤ nameLimit)
    ⟨fun ⟨hSome, hSlash, hDot, hUp, hShort⟩ => ⟨⟨⟨hSome, hSlash⟩, hDot, hUp⟩, hShort⟩,
      fun h => ⟨h.ne_empty, h.no_slash, h.ne_dot, h.ne_up, h.short⟩⟩

theorem isStep_dot : IsStep "." :=
  ⟨by decide, by decide⟩

theorem isStep_of_mem_names {path s : RawText} (hs : s ∈ names path) : IsStep s := by
  rcases List.mem_append.1 hs with hPiece | hDot
  · obtain ⟨hIn, hSome⟩ := List.mem_filter.1 hPiece
    obtain ⟨piece, hSplit, rfl⟩ := List.mem_map.1 hIn
    exact ⟨of_decide_eq_true hSome, not_mem_of_mem_splitAt hSplit⟩
  · split at hDot
    · rw [List.mem_singleton.1 hDot]
      exact isStep_dot
    · cases hDot

/-! ## Paths of places -/

/-- What the path of a place right below another one begins with. -/
def stem (p : Place) : List UInt8 :=
  if p = [] then [RawText.slash] else (placePath p).bytes ++ [RawText.slash]

theorem bytes_placePath_concat (p : Place) (name : RawText) :
    (placePath (p ++ [name])).bytes = stem p ++ name.bytes := by
  unfold stem
  split
  · rename_i hNil
    subst hNil
    rfl
  · rename_i hSome
    rw [placePath, List.map_append, List.map_singleton, joinWith_concat (by simpa using hSome)]
    simp [placePath]

theorem size_placePath_concat_le (p : Place) (name : RawText) :
    (placePath p).size ≤ (placePath (p ++ [name])).size := by
  rw [RawText.size, RawText.size, bytes_placePath_concat, stem]
  split
  · rename_i hNil
    subst hNil
    rw [List.length_append]
    exact Nat.le_add_right _ _
  · rw [List.append_assoc, List.length_append]
    exact Nat.le_add_right _ _

theorem head?_placePath (p : Place) : (placePath p).bytes.head? = some RawText.slash :=
  rfl

/-- However its names are read, the path of a place is absolute. -/
theorem isAbsolute_placePath (p : Place) : isAbsolute (slashes (placePath p).text) = true := by
  obtain ⟨rest, hRest⟩ : ∃ rest, (placePath p).text = String.ofList ('/' :: rest) := ⟨_, rfl⟩
  rw [hRest, slashes, isAbsolute, String.toList_ofList, String.toList_ofList]
  rfl

theorem splitAt_placePath (hSlash : ∀ s ∈ p, RawText.slash ∉ s.bytes) (hSome : p ≠ []) :
    (splitAt RawText.slash (placePath p).bytes).map RawText.mk = ⟨[]⟩ :: p := by
  have hPieces : ∀ piece ∈ p.map RawText.bytes, RawText.slash ∉ piece := by
    intro piece hPiece
    obtain ⟨s, hs, rfl⟩ := List.mem_map.1 hPiece
    exact hSlash s hs
  rw [placePath, splitAt, if_pos rfl, splitAt_joinWith (by simpa using hSome) hPieces,
    List.map_cons, List.map_map]
  simp [Function.comp_def]

theorem names_placePath (hNames : ∀ s ∈ p, IsName s) (hName : IsName name) :
    names (placePath (p ++ [name])) = p ++ [name] := by
  have hAll : ∀ s ∈ p ++ [name], IsName s :=
    List.forall_mem_append.2 ⟨hNames, List.forall_mem_singleton.2 hName⟩
  have hPieces := splitAt_placePath (fun s hs => (hAll s hs).no_slash) (by simp : p ++ [name] ≠ [])
  have hEnd : (placePath (p ++ [name])).bytes.getLast? ≠ some RawText.slash := by
    rw [bytes_placePath_concat, List.getLast?_append,
      List.getLast?_eq_some_getLast hName.ne_empty, Option.some_or]
    intro h
    exact hName.no_slash (Option.some.inj h ▸ List.getLast_mem hName.ne_empty)
  have hKept : (p ++ [name]).filter (·.bytes ≠ []) = p ++ [name] :=
    List.filter_eq_self.2 fun s hs => decide_eq_true (hAll s hs).ne_empty
  rw [names, hPieces, if_neg hEnd, List.append_nil, List.filter_cons_of_neg (by simp), hKept]

/-- Different places have different paths. -/
theorem placePath_inj (hp : ∀ s ∈ p, IsStep s) (hq : ∀ s ∈ q, IsStep s)
    (hSame : placePath p = placePath q) : p = q := by
  have hRoot : ∀ {p : Place}, (∀ s ∈ p, IsStep s) → placePath [] = placePath p → p = [] := by
    intro p hp hSame
    refine Classical.byContradiction fun hSome => ?_
    have hPieces := splitAt_placePath (fun s hs => (hp s hs).no_slash) hSome
    rw [← hSame] at hPieces
    have hTwo : [(⟨[]⟩ : RawText), ⟨[]⟩] = ⟨[]⟩ :: p := hPieces
    obtain rfl := (List.cons.inj hTwo).2
    exact (hp ⟨[]⟩ List.mem_cons_self).ne_empty rfl
  by_cases hNil : p = []
  · subst hNil
    exact (hRoot hq hSame).symm
  · by_cases hNil' : q = []
    · subst hNil'
      exact hRoot hp hSame.symm
    · have hPieces := splitAt_placePath (fun s hs => (hp s hs).no_slash) hNil
      rw [hSame, splitAt_placePath (fun s hs => (hq s hs).no_slash) hNil'] at hPieces
      exact (List.cons.inj hPieces).2.symm

/-! ## Names that are texts -/

/-- The place with the given texts as its names. -/
def placeOf (segments : List String) : Place :=
  segments.map RawText.ofText

/-- The text of the path of such a place. -/
def rooted (segments : List String) : String :=
  Parts.text ⟨"/", segments⟩

theorem placeOf_append (above below : List String) :
    placeOf (above ++ below) = placeOf above ++ placeOf below :=
  List.map_append

theorem placeOf_inj {above below : List String} (hSame : placeOf above = placeOf below) :
    above = below :=
  List.map_injective_iff.2 (fun _ _ => RawText.ofText_inj.1) hSame

theorem ofText_rooted (segments : List String) :
    RawText.ofText (rooted segments) = placePath (placeOf segments) := by
  have hBytes : utf8Bytes (joined segments) =
      joinWith RawText.slash ((placeOf segments).map RawText.bytes) := by
    rw [joined, utf8Bytes, String.toList_ofList, flatMap_joinWith (by decide), placeOf,
      List.map_map, List.map_map]
    rfl
  rw [rooted, text_eq, RawText.ofText, utf8Bytes_append, hBytes]
  rfl

theorem isStep_ofText_iff {s : String} : IsStep s ↔ s ≠ "" ∧ '/' ∉ s.toList := by
  constructor
  · intro h
    exact ⟨mt RawText.bytes_ofText_eq_nil_iff.2 h.ne_empty, mt RawText.slash_mem_iff.2 h.no_slash⟩
  · rintro ⟨hSome, hSlash⟩
    exact ⟨mt RawText.bytes_ofText_eq_nil_iff.1 hSome, mt RawText.slash_mem_iff.1 hSlash⟩

/-- A place whose names are all texts. -/
theorem exists_placeOf (hText : ∀ s ∈ p, s.IsText) : ∃ segments, p = placeOf segments := by
  refine ⟨p.map RawText.text, ?_⟩
  rw [placeOf, List.map_map]
  exact ((List.map_congr_left hText).trans (List.map_id p)).symm

theorem splitAt_ofText (path : String) :
    (splitAt RawText.slash (RawText.ofText path).bytes).map RawText.mk = placeOf (pieces path) := by
  rw [RawText.ofText, utf8Bytes, RawText.slash, splitAt_utf8Bytes (by decide), List.map_map,
    placeOf, pieces, List.map_map]
  refine List.map_congr_left fun piece _ => ?_
  simp [RawText.ofText, utf8Bytes]

/-- Only a place whose names are texts has a path that is one. -/
theorem exists_placeOf_of_placePath_eq {path : String} (hSteps : ∀ s ∈ p, IsStep s)
    (hPath : placePath p = path) : ∃ segments, p = placeOf segments ∧ path = rooted segments := by
  obtain ⟨segments, rfl⟩ : ∃ segments, p = placeOf segments := by
    by_cases hNil : p = []
    · exact ⟨[], hNil⟩
    · have hPieces := splitAt_placePath (fun s hs => (hSteps s hs).no_slash) hNil
      rw [hPath, splitAt_ofText] at hPieces
      refine ⟨(pieces path).tail, ?_⟩
      rw [placeOf, List.map_tail]
      exact (congrArg List.tail hPieces).symm
  exact ⟨segments, rfl, RawText.ofText_inj.1 (hPath.symm.trans (ofText_rooted segments).symm)⟩

/-- The names of a path that is a text, as texts. -/
def stepTexts (path : String) : List String :=
  (pieces path).filter (· ≠ "") ++ if path.toList.getLast? = some '/' then ["."] else []

theorem names_ofText (path : String) : names path = placeOf (stepTexts path) := by
  have hEnd : (RawText.ofText path).bytes.getLast? = some RawText.slash ↔
      path.toList.getLast? = some '/' :=
    getLast?_utf8Bytes_iff (by decide)
  have hFilter : (placeOf (pieces path)).filter (·.bytes ≠ []) =
      placeOf ((pieces path).filter (· ≠ "")) := by
    rw [placeOf, List.filter_map, placeOf]
    simp [Function.comp_def, RawText.bytes_ofText_eq_nil_iff]
  rw [names, splitAt_ofText, hFilter, stepTexts, placeOf_append]
  simp only [hEnd]
  split <;> rfl

theorem start_ofText (directory : Place) (path : String) :
    start directory path = if path.toList.head? = some '/' then [] else directory := by
  have hHead : (RawText.ofText path).bytes.head? = some RawText.slash ↔
      path.toList.head? = some '/' :=
    head?_utf8Bytes_iff (by decide)
  simp only [start, hHead]

end FileTree

/-- A plain segment is a name. -/
theorem Path.Plain.isName {s : String} (h : Plain s) : FileTree.IsName s where
  ne_empty := mt RawText.bytes_ofText_eq_nil_iff.1 h.ne_empty
  no_slash := mt RawText.slash_mem_iff.1 h.no_slash
  ne_dot := mt RawText.ofText_inj.1 h.ne_dot
  ne_up := mt RawText.ofText_inj.1 h.ne_up

theorem FileTree.isName_placeOf {segments : List String} (hPlain : ∀ s ∈ segments, Plain s) :
    ∀ s ∈ placeOf segments, IsName s := by
  intro s hs
  obtain ⟨segment, hSegment, rfl⟩ := List.mem_map.1 hs
  exact (hPlain segment hSegment).isName

end CompileHost
