import CompileHost.Proofs.Reference.Passes

/-!
# What becomes of a text with references

A pass takes a text apart from the left, into references and single characters, and writes a
property in place of each reference.  It looks for the name of a property wherever it may stand, at
the end of a longer name too, and it takes every name that begins with a dot for one that says
where its path starts.

* `Parts`: the references of a text and the characters between them.
* `isRelative_file_iff`: which files are required by a path.
* `resolve_loads_checked_files`: the text that a pass writes.
* `resolveAll_eq_self_iff`: which texts are left as they are.
-/

namespace CompileHost

open Text

namespace Reference

variable {t : FileTree} {directory : String} {kind : ResourceKind} {kinds : Set ResourceKind}
  {cs out value : List Char}

/-! ## Where a path starts -/

/-- The name of a module is a path if it says where the path starts, and the name of a package
otherwise. -/
def IsRelative (file : String) : Prop :=
  "./".toList <+: file.toList ∨ "../".toList <+: file.toList

instance (file : String) : Decidable (IsRelative file) :=
  inferInstanceAs (Decidable (_ ∨ _))

/-- A file right beside the source whose name begins with a dot. -/
def IsHidden (value : List Char) : Prop :=
  value.head? = some '.' ∧ '/' ∉ value

theorem isRelative_ofList_iff :
    IsRelative (String.ofList value) ↔ "./".toList <+: value ∨ "../".toList <+: value := by
  rw [IsRelative, @String.toList_ofList value]

theorem isRelative_of_isReference (hRefers : isReference kind value = true) (hSlash : '/' ∈ value) :
    IsRelative (String.ofList value) := by
  rw [isRelative_ofList_iff]
  rw [← joinWith_splitAt '/' value] at hSlash ⊢
  unfold isReference at hRefers
  split at hRefers
  · next name hPieces =>
    -- one piece alone holds no slash
    rw [hPieces] at hSlash
    exact absurd hSlash (not_mem_of_mem_splitAt (hPieces ▸ List.mem_singleton_self name))
  · next first rest hRest hPieces =>
    have hNonempty : rest ≠ [] := hRest
    rw [hPieces, joinWith_cons first hNonempty]
    simp only [Bool.and_eq_true, Bool.or_eq_true, decide_eq_true_eq] at hRefers
    rcases hRefers.1.1 with rfl | rfl
    · exact .inl (List.prefix_append "./".toList _)
    · exact .inr (List.prefix_append "../".toList _)
  · cases hRefers

theorem slash_mem_of_isRelative (h : IsRelative (String.ofList value)) : '/' ∈ value := by
  rcases isRelative_ofList_iff.1 h with hStart | hStart
  all_goals exact hStart.subset (by decide)

theorem isRelative_fromSource_iff (hRefers : isReference kind value = true) :
    IsRelative (fromSource value) ↔ ¬ IsHidden value := by
  unfold fromSource IsHidden
  split
  · next hDot =>
    rw [not_and, not_not]
    constructor
    · exact fun hRelative _ => slash_mem_of_isRelative hRelative
    · exact fun hSlash => isRelative_of_isReference hRefers (hSlash hDot)
  · next hNoDot =>
    refine iff_of_true (.inl ?_) fun hHidden => hNoDot hHidden.1
    rw [String.toList_append]
    exact List.prefix_append _ _

/-! ## The parts of a text -/

namespace Spelling

/-- The file that a reference is resolved to, from the directory of the source. -/
def file (s : Spelling kind) : String :=
  fromSource s.value

/-- The property that loads it. -/
def load (s : Spelling kind) : String :=
  kind.property ++ ": require('" ++ s.file ++ "')"

theorem isRelative_file_iff (s : Spelling kind) : IsRelative s.file ↔ ¬ IsHidden s.value :=
  isRelative_fromSource_iff s.refers

theorem text_ne_nil (s : Spelling kind) : s.text ≠ [] := by
  obtain ⟨first, tail, hCons, -⟩ := s.isProperty.exists_tail (urlProperty_mem kind)
  rw [hCons]
  exact List.cons_ne_nil first tail

end Spelling

/-- The property without a resource. -/
def emptied (kind : ResourceKind) : String :=
  kind.property ++ ": ''"

/-- A text taken apart from the left: a reference where one is spelled, and otherwise a single
character. -/
inductive Parts (kind : ResourceKind) : List Char → List (Char ⊕ Spelling kind) → Prop where
  | done : Parts kind [] []
  | plain {c : Char} {cs : List Char} {pieces : List (Char ⊕ Spelling kind)}
      (hNone : ∀ s : Spelling kind, ¬ s.text <+: c :: cs) (hRest : Parts kind cs pieces) :
      Parts kind (c :: cs) (.inl c :: pieces)
  | found {rest : List Char} {pieces : List (Char ⊕ Spelling kind)} (s : Spelling kind)
      (hRest : Parts kind rest pieces) : Parts kind (s.text ++ rest) (.inr s :: pieces)

theorem read?_eq_none_iff : read? kind cs = none ↔ ∀ s : Spelling kind, ¬ s.text <+: cs := by
  constructor
  · rintro hNone s ⟨rest, rfl⟩
    rw [s.read?_append] at hNone
    cases hNone
  · intro hNone
    rw [Option.eq_none_iff_forall_ne_some]
    rintro ⟨value, rest⟩ hRead
    obtain ⟨s, -, rfl⟩ := exists_spelling hRead
    exact hNone s (List.prefix_append _ _)

/-- A pass for one kind replaces the references of this kind, and copies everything else. -/
theorem Resolves.exists_parts (h : Resolves t directory {kind} cs out) :
    ∃ pieces, Parts kind cs pieces ∧ out = pieces.flatMap (Sum.elim (fun c => [c]) fun s =>
      (replacement t directory kind s.value).toList) := by
  induction h with
  | done => exact ⟨[], .done, rfl⟩
  | @plain c cs out hNone hRest ih =>
    obtain ⟨pieces, hParts, rfl⟩ := ih
    exact ⟨.inl c :: pieces, .plain (read?_eq_none_iff.1 (hNone kind rfl)) hParts, rfl⟩
  | @found other cs value rest out hKind hRead hRest ih =>
    obtain rfl : other = kind := hKind
    obtain ⟨pieces, hParts, rfl⟩ := ih
    obtain ⟨s, rfl, rfl⟩ := exists_spelling hRead
    exact ⟨.inr s :: pieces, .found s hParts, rfl⟩

/-- **What is loaded.**  In place of a reference stands a property that loads the file which has
been found in the directory of the source, or an empty one if there is no such file; all else is
copied.  What is loaded is given as a path, unless it lies right beside the source under a name
that begins with a dot. -/
theorem resolve_loads_checked_files (t : FileTree) (directory : String) (kind : ResourceKind)
    (text : String) :
    (∀ s : Spelling kind, IsRelative s.file ↔ ¬ IsHidden s.value) ∧
      ∃ pieces, Parts kind text.toList pieces ∧
        (resolve t directory kind text).toList = pieces.flatMap (Sum.elim (fun c => [c]) fun s =>
          (if t.isFile (inDirectory directory s.file) then s.load else emptied kind).toList) := by
  obtain ⟨pieces, hParts, hText⟩ := (resolves_resolve t directory kind text).exists_parts
  exact ⟨Spelling.isRelative_file_iff, pieces, hParts, hText⟩

/-- The name of a file beside the source is required as if it were that of a package. -/
theorem hidden_file_required_as_package :
    let t : FileTree := ⟨[([".card.html"], .file [])], []⟩
    resolve t "/" .template "templateUrl: '.card.html'" = "template: require('.card.html')" ∧
      ¬ IsRelative ".card.html" := by
  decide +kernel

/-! ## Texts that are left alone -/

/-- A pass changes nothing if there is nothing to read, and only then. -/
theorem Resolves.eq_self_iff (h : Resolves t directory kinds cs out) :
    out = cs ↔ ∀ kind ∈ kinds, ∀ s : Spelling kind, ¬ s.text <:+: cs := by
  induction h with
  | done =>
    refine iff_of_true rfl fun kind _ s hInfix => ?_
    exact s.text_ne_nil (List.infix_nil.1 hInfix)
  | @plain c cs out hNone hRest ih =>
    rw [List.cons.injEq, ih, and_iff_right rfl]
    refine forall₂_congr fun kind hKind => forall_congr' fun s => ?_
    have hHere : ¬ s.text <+: c :: cs := read?_eq_none_iff.1 (hNone kind hKind) s
    rw [List.infix_cons_iff, or_iff_right hHere]
  | @found kind cs value rest out hKind hRead hRest ih =>
    constructor
    · -- what is written bears another name than what has been read
      intro hSame
      have hProperty := isProperty_replacement t directory kind (isValueChar_of_read? hRead)
      have hName := hProperty.takeWhile_append (property_mem kind) out
      rw [hSame, takeWhile_of_read? hRead] at hName
      exact absurd hName.symm (property_ne_urlProperty kind kind)
    · intro hNone
      obtain ⟨s, -, rfl⟩ := exists_spelling hRead
      exact absurd (List.prefix_append _ _).isInfix (hNone kind hKind s)

/-- **Texts that are left alone.**  A text stays as it is exactly if no reference is spelled
anywhere in it; it does not matter what stands in front of one. -/
theorem resolveAll_eq_self_iff (t : FileTree) (directory text : String) :
    resolveAll t directory text = text ↔
      ∀ kind, ∀ s : Spelling kind, ¬ s.text <:+: text.toList := by
  have hAll : ∀ kind, kind ∈ ({.template} ∪ {.style} : Set ResourceKind) := by
    intro kind
    cases kind
    · exact .inl rfl
    · exact .inr rfl
  rw [← String.toList_inj, (resolves_resolveAll t directory text).eq_self_iff]
  exact forall_congr' fun kind => imp_iff_right (hAll kind)

/-- A character of an identifier. -/
def isIdentifierChar (c : Char) : Bool :=
  isWord c || c == '$'

/-- Wherever the name of a property that refers to a file stands, it is the end of a longer
identifier. -/
def OnlyEndsOfNames (cs : List Char) : Prop :=
  ∀ kind : ResourceKind, ∀ i < cs.length, kind.urlProperty.toList <+: cs.drop i →
    (cs.take i).getLast?.any isIdentifierChar = true

/-- The end of a longer name is taken for a name of its own. -/
theorem longer_name_resolved :
    let text := "mytemplateUrl: 'card.html'"
    OnlyEndsOfNames text.toList ∧ resolveAll ⟨[], []⟩ "/" text ≠ text := by
  intro text
  constructor
  · intro kind
    cases kind <;> decide +kernel
  · decide +kernel

end Reference

end CompileHost
