import CompileHost.Proofs.Reference.Spelling
import CompileHost.Proofs.Text.Cutting
import Mathlib.Data.List.Infix
import Mathlib.Data.Set.Basic

/-!
# Passes over the references of a text

A pass resolves the references of some kinds and copies all other characters.  What it reads, and
what it writes, begins with the name of a property that stands alone: a whole word with a blank or
a colon behind it.  No other name stands alone within it, whatever follows.  A pass therefore
copies what another one would read, as a whole, and goes over what another one has written, so that
two passes, in either order, are one pass for the kinds of both.

* `Silent`: a text in which no name stands alone.
* `Spelling.isProperty`, `isProperty_replacement`: what is read and what is written.
* `Resolves`, `resolves_resolve`: a pass as a relation between texts.
* `Resolves.trans`: one pass after another.
* `resolveAll_idempotent_comm`: a second round, and the two orders.
-/

namespace CompileHost

open Text

namespace Reference

variable {kind other : ResourceKind} {c : Char} {cs more rest value word : List Char}

/-! ## Names of properties -/

/-- The names of the properties, of those that hold a resource and of those that refer to one. -/
def propertyNames : List (List Char) :=
  ["template", "templateUrl", "style", "styleUrl"].map String.toList

theorem property_mem (kind : ResourceKind) : kind.property.toList ∈ propertyNames := by
  cases kind <;> decide

theorem urlProperty_mem (kind : ResourceKind) : kind.urlProperty.toList ∈ propertyNames := by
  cases kind <;> decide

theorem isValueChar_of_mem_name (hWord : word ∈ propertyNames) :
    ∀ c ∈ word, isValueChar c = true := by
  have hAll : ∀ word ∈ propertyNames, word.all isValueChar = true := by decide
  exact List.all_eq_true.1 (hAll word hWord)

/-- No name is the end of another one. -/
theorem not_mem_of_suffix_tail (hWord : word ∈ propertyNames) (hSuffix : cs <:+ word.tail) :
    cs ∉ propertyNames := by
  have hAll : ∀ word ∈ propertyNames, ∀ cs ∈ word.tail.tails, cs ∉ propertyNames := by decide
  exact hAll word hWord cs ((List.mem_tails _ _).2 hSuffix)

theorem urlProperty_inj (h : other.urlProperty.toList = kind.urlProperty.toList) :
    other = kind := by
  revert h
  cases kind <;> cases other <;> decide

theorem property_ne_urlProperty (kind other : ResourceKind) :
    kind.property.toList ≠ other.urlProperty.toList := by
  cases kind <;> cases other <;> decide

/-- A text begins with the name of a property that stands alone. -/
def Opens (cs : List Char) : Prop :=
  ∃ word ∈ propertyNames, ∃ c more, isGap c = true ∧ cs = word ++ c :: more

/-- There is no such name anywhere in a text, whatever follows. -/
def Silent : List Char → Prop
  | [] => True
  | c :: cs => (∀ rest, ¬ Opens (c :: (cs ++ rest))) ∧ Silent cs

/-- Whether a name stands alone is seen where the word ends. -/
theorem opens_iff (hWord : ∀ c ∈ word, isValueChar c = true) (hc : isValueChar c = false) :
    Opens (word ++ c :: more) ↔ word ∈ propertyNames ∧ isGap c = true := by
  constructor
  · rintro ⟨name, hName, gap, behind, hGap, hText⟩
    have hSame := congrArg (List.takeWhile isValueChar) hText
    rw [takeWhile_word hWord hc,
      takeWhile_word (isValueChar_of_mem_name hName) (isValueChar_of_isGap hGap)] at hSame
    subst hSame
    obtain ⟨rfl, -⟩ := List.cons.inj (List.append_cancel_left hText)
    exact ⟨hName, hGap⟩
  · rintro ⟨hName, hGap⟩
    exact ⟨word, hName, c, more, hGap, rfl⟩

theorem silent_append_cons (hWord : ∀ c ∈ word, isValueChar c = true)
    (hc : isValueChar c = false)
    (hNames : isGap c = true → ∀ name, name <:+ word → name ∉ propertyNames) (hMore : Silent more) :
    Silent (word ++ c :: more) := by
  induction word with
  | nil =>
    refine ⟨fun rest hOpens => ?_, hMore⟩
    obtain ⟨hName, hGap⟩ := (opens_iff hWord hc).1 hOpens
    exact hNames hGap [] List.suffix_rfl hName
  | cons d word ih =>
    have hRest : Silent (word ++ c :: more) :=
      ih (fun x hx => hWord x (List.mem_cons_of_mem d hx)) fun hGap name hSuffix =>
        hNames hGap name (hSuffix.trans (List.suffix_cons d word))
    rw [List.cons_append]
    refine ⟨fun rest hOpens => ?_, hRest⟩
    rw [List.append_assoc, List.cons_append, ← List.cons_append] at hOpens
    obtain ⟨hName, hGap⟩ := (opens_iff hWord hc).1 hOpens
    exact hNames hGap (d :: word) List.suffix_rfl hName

theorem silent_cons (hc : isValueChar c = false) (hMore : Silent more) : Silent (c :: more) := by
  have hNames : isGap c = true → ∀ name, name <:+ [] → name ∉ propertyNames := by
    intro _ name hSuffix
    rw [List.suffix_nil.1 hSuffix]
    decide
  exact silent_append_cons (List.forall_mem_nil _) hc hNames hMore

theorem silent_append (hAll : ∀ c ∈ cs, isValueChar c = false) (hMore : Silent more) :
    Silent (cs ++ more) := by
  induction cs with
  | nil => exact hMore
  | cons c cs ih =>
    have hRest : Silent (cs ++ more) := ih fun x hx => hAll x (List.mem_cons_of_mem c hx)
    exact silent_cons (hAll c List.mem_cons_self) hRest

/-- A quote is no gap, so the word before it is no name that stands alone. -/
theorem silent_quoted (hValue : ∀ c ∈ value, isValueChar c = true) (hQuote : isQuote c = true)
    (hMore : Silent more) : Silent (value ++ c :: more) := by
  refine silent_append_cons hValue (isValueChar_of_isQuote hQuote) (fun hGap => ?_) hMore
  rw [isGap_of_isQuote hQuote] at hGap
  cases hGap

theorem silent_behind_name (hWord : word ∈ propertyNames) (hGap : isGap c = true)
    (hMore : Silent more) : Silent (word.tail ++ c :: more) :=
  silent_append_cons (fun x hx => isValueChar_of_mem_name hWord x (List.mem_of_mem_tail hx))
    (isValueChar_of_isGap hGap) (fun _ _ => not_mem_of_suffix_tail hWord) hMore

/-! ## What is read and what is written -/

/-- A text begins with a name that stands alone, and there is no other name in it. -/
def IsProperty (word cs : List Char) : Prop :=
  ∃ gap more, isGap gap = true ∧ Silent more ∧ cs = word ++ gap :: more

namespace IsProperty

variable (hWord : word ∈ propertyNames) (h : IsProperty word cs)
include hWord h

theorem opens (rest : List Char) : Opens (cs ++ rest) := by
  obtain ⟨gap, more, hGap, -, rfl⟩ := h
  rw [List.append_assoc, List.cons_append]
  exact ⟨word, hWord, gap, more ++ rest, hGap, rfl⟩

theorem takeWhile_append (rest : List Char) : (cs ++ rest).takeWhile isValueChar = word := by
  obtain ⟨gap, more, hGap, -, rfl⟩ := h
  rw [List.append_assoc, List.cons_append]
  exact takeWhile_word (isValueChar_of_mem_name hWord) (isValueChar_of_isGap hGap)

theorem exists_tail : ∃ first tail, cs = first :: tail ∧ Silent tail := by
  obtain ⟨gap, more, hGap, hMore, rfl⟩ := h
  have hTail : Silent (word.tail ++ gap :: more) := silent_behind_name hWord hGap hMore
  cases word with
  | nil => exact absurd hWord (by decide)
  | cons first tail => exact ⟨first, tail ++ gap :: more, rfl, hTail⟩

end IsProperty

theorem Spelling.isProperty (s : Spelling kind) :
    IsProperty kind.urlProperty.toList s.text := by
  have hQuoted : Silent s.quoted :=
    silent_cons (isValueChar_of_isQuote s.opening_quote)
      (silent_quoted s.value_chars s.closing_quote trivial)
  have hBehind : Silent (s.behind ++ s.quoted) :=
    silent_append (fun c hc => isValueChar_of_isBlank (s.behind_blank c hc)) hQuoted
  have hColon : Silent (':' :: (s.behind ++ s.quoted)) := silent_cons rfl hBehind
  -- the gap behind the name is the first blank, or the colon
  cases hBefore : s.before with
  | nil => exact ⟨':', _, rfl, hBehind, by rw [text, hBefore, List.nil_append]⟩
  | cons c before =>
    have hBlank : ∀ x ∈ c :: before, isBlank x = true := hBefore ▸ s.before_blank
    have hGap : isGap c = true := by
      rw [isGap, hBlank c List.mem_cons_self, Bool.true_or]
    have hRest : ∀ x ∈ before, isValueChar x = false := fun x hx =>
      isValueChar_of_isBlank (hBlank x (List.mem_cons_of_mem c hx))
    refine ⟨c, _, hGap, silent_append hRest hColon, ?_⟩
    rw [text, hBefore, List.cons_append]

theorem isValueChar_of_mem_fromSource (hValue : ∀ c ∈ value, isValueChar c = true) :
    ∀ c ∈ (fromSource value).toList, isValueChar c = true := by
  unfold fromSource
  split
  · rwa [String.toList_ofList]
  · rw [String.toList_append, List.forall_mem_append]
    refine ⟨List.all_eq_true.1 (by decide), ?_⟩
    rwa [String.toList_ofList]

theorem isProperty_replacement (t : FileTree) (directory : String) (kind : ResourceKind)
    (hValue : ∀ c ∈ value, isValueChar c = true) :
    IsProperty kind.property.toList (replacement t directory kind value).toList := by
  unfold replacement
  dsimp only
  split
  · have hFile : Silent ((fromSource value).toList ++ "')".toList) :=
      silent_quoted (isValueChar_of_mem_fromSource hValue) rfl (silent_cons rfl trivial)
    have hRequire : Silent ("require".toList ++ '(' ::
        '\'' :: ((fromSource value).toList ++ "')".toList)) :=
      silent_append_cons (List.all_eq_true.1 (by decide)) rfl
        (fun hGap => absurd hGap (by decide))
        (silent_cons rfl hFile)
    refine ⟨':', ' ' :: _, rfl, silent_cons rfl hRequire, ?_⟩
    simp only [String.toList_append, List.append_assoc]
    rfl
  · refine ⟨':', " ''".toList, rfl, silent_cons rfl (silent_cons rfl (silent_cons rfl trivial)), ?_⟩
    rw [String.toList_append]
    rfl

theorem takeWhile_of_read? (h : read? kind cs = some (value, rest)) :
    cs.takeWhile isValueChar = kind.urlProperty.toList := by
  obtain ⟨s, -, rfl⟩ := exists_spelling h
  exact s.isProperty.takeWhile_append (urlProperty_mem kind) rest

theorem opens_of_read? (h : read? kind cs = some (value, rest)) : Opens cs := by
  obtain ⟨s, -, rfl⟩ := exists_spelling h
  exact s.isProperty.opens (urlProperty_mem kind) rest

theorem isValueChar_of_read? (h : read? kind cs = some (value, rest)) :
    ∀ c ∈ value, isValueChar c = true := by
  obtain ⟨s, rfl, -⟩ := exists_spelling h
  exact s.value_chars

theorem kind_eq_of_read? {found : List Char × List Char} (h : read? kind cs = some (value, rest))
    (hOther : read? other cs = some found) : other = kind :=
  urlProperty_inj ((takeWhile_of_read? hOther).symm.trans (takeWhile_of_read? h))

theorem read?_of_not_opens (h : ¬ Opens cs) : read? kind cs = none := by
  rw [Option.eq_none_iff_forall_ne_some]
  intro found hRead
  exact h (opens_of_read? hRead)

/-- What is read goes on with a text in which no name begins, and is read whatever follows. -/
theorem exists_tail_of_read? (h : read? kind (c :: cs) = some (value, rest)) :
    ∃ tail, Silent tail ∧ cs = tail ++ rest ∧
      ∀ more, read? kind (c :: (tail ++ more)) = some (value, more) := by
  obtain ⟨s, rfl, hText⟩ := exists_spelling h
  obtain ⟨first, tail, hCons, hSilent⟩ := s.isProperty.exists_tail (urlProperty_mem kind)
  rw [hCons] at hText
  obtain ⟨rfl, rfl⟩ := List.cons.inj hText
  refine ⟨tail, hSilent, rfl, fun more => ?_⟩
  rw [← List.cons_append, ← hCons]
  exact s.read?_append more

theorem exists_taken_of_read? (h : read? kind cs = some (value, rest)) :
    ∃ taken, taken ≠ [] ∧ cs = taken ++ rest := by
  obtain ⟨s, -, hText⟩ := exists_spelling h
  obtain ⟨first, tail, hCons, -⟩ := s.isProperty.exists_tail (urlProperty_mem kind)
  refine ⟨s.text, ?_, hText⟩
  rw [hCons]
  exact List.cons_ne_nil first tail

theorem length_lt_of_read? (h : read? kind cs = some (value, rest)) : rest.length < cs.length := by
  obtain ⟨taken, hTaken, rfl⟩ := exists_taken_of_read? h
  have hPositive : 0 < taken.length := List.length_pos_iff.2 hTaken
  rw [List.length_append]
  omega

theorem read?_nil (kind : ResourceKind) : read? kind [] = none := by
  cases kind <;> rfl

/-- What is written in place of a reference is not read. -/
theorem read?_replacement (t : FileTree) (directory : String)
    (hValue : ∀ c ∈ value, isValueChar c = true) (rest : List Char) :
    read? other ((replacement t directory kind value).toList ++ rest) = none := by
  rw [Option.eq_none_iff_forall_ne_some]
  rintro ⟨_, _⟩ hRead
  have hName := (isProperty_replacement t directory kind hValue).takeWhile_append
    (property_mem kind) rest
  rw [takeWhile_of_read? hRead] at hName
  exact property_ne_urlProperty kind other hName.symm

/-! ## Passes -/

section Passes

variable {t : FileTree} {directory : String} {kinds first second : Set ResourceKind}
  {mid out : List Char}

/-- What a pass makes of a text: nothing is read where it copies a character. -/
inductive Resolves (t : FileTree) (directory : String) (kinds : Set ResourceKind) :
    List Char → List Char → Prop where
  | done : Resolves t directory kinds [] []
  | plain {c : Char} {cs out : List Char} (hNone : ∀ kind ∈ kinds, read? kind (c :: cs) = none)
      (hRest : Resolves t directory kinds cs out) : Resolves t directory kinds (c :: cs) (c :: out)
  | found {kind : ResourceKind} {cs value rest out : List Char} (hKind : kind ∈ kinds)
      (hRead : read? kind cs = some (value, rest)) (hRest : Resolves t directory kinds rest out) :
      Resolves t directory kinds cs ((replacement t directory kind value).toList ++ out)

namespace Resolves

theorem eq_nil (h : Resolves t directory kinds [] out) : out = [] := by
  cases h with
  | done => rfl
  | found hKind hRead hRest =>
    rw [read?_nil] at hRead
    cases hRead

theorem exists_of_none (hNone : ∀ kind ∈ kinds, read? kind (c :: cs) = none)
    (h : Resolves t directory kinds (c :: cs) out) :
    ∃ more, out = c :: more ∧ Resolves t directory kinds cs more := by
  cases h with
  | plain _ hRest => exact ⟨_, rfl, hRest⟩
  | found hKind hRead hRest =>
    rw [hNone _ hKind] at hRead
    cases hRead

theorem exists_of_read (hKind : kind ∈ kinds) (hRead : read? kind cs = some (value, rest))
    (h : Resolves t directory kinds cs out) :
    ∃ more, out = (replacement t directory kind value).toList ++ more ∧
      Resolves t directory kinds rest more := by
  cases h with
  | done =>
    rw [read?_nil] at hRead
    cases hRead
  | plain hNone hRest =>
    rw [hNone kind hKind] at hRead
    cases hRead
  | found hKind' hRead' hRest =>
    obtain rfl := kind_eq_of_read? hRead hRead'
    rw [hRead] at hRead'
    cases hRead'
    exact ⟨_, rfl, hRest⟩

theorem unique {other : List Char} (h : Resolves t directory kinds cs out)
    (hOther : Resolves t directory kinds cs other) : other = out := by
  induction h generalizing other with
  | done => exact hOther.eq_nil
  | plain hNone hRest ih =>
    obtain ⟨more, rfl, hMore⟩ := hOther.exists_of_none hNone
    rw [ih hMore]
  | found hKind hRead hRest ih =>
    obtain ⟨more, rfl, hMore⟩ := hOther.exists_of_read hKind hRead
    rw [ih hMore]

/-- A pass copies a text in which no name begins. -/
theorem exists_of_silent (hSilent : Silent cs) (h : Resolves t directory kinds (cs ++ rest) out) :
    ∃ more, out = cs ++ more ∧ Resolves t directory kinds rest more := by
  induction cs generalizing out with
  | nil => exact ⟨out, rfl, h⟩
  | cons c cs ih =>
    obtain ⟨hHere, hBehind⟩ := hSilent
    obtain ⟨out, rfl, hRest⟩ := h.exists_of_none fun _ _ => read?_of_not_opens (hHere rest)
    obtain ⟨more, rfl, hMore⟩ := ih hBehind hRest
    exact ⟨more, rfl, hMore⟩

/-- A text in which no name begins has been copied by a pass. -/
theorem exists_of_silent_out (hSilent : Silent cs)
    (h : Resolves t directory kinds more (cs ++ out)) :
    ∃ rest, more = cs ++ rest ∧ Resolves t directory kinds rest out := by
  induction cs generalizing more with
  | nil => exact ⟨more, rfl, h⟩
  | cons c cs ih =>
    obtain ⟨hHere, hBehind⟩ := hSilent
    generalize hOut : c :: cs ++ out = whole at h
    cases h with
    | done => cases hOut
    | plain hNone hRest =>
      obtain ⟨rfl, rfl⟩ := List.cons.inj hOut
      obtain ⟨rest, rfl, hMore⟩ := ih hBehind hRest
      exact ⟨rest, rfl, hMore⟩
    | @found kind _ value _ behind hKind hRead hRest =>
      have hProperty := isProperty_replacement t directory kind (isValueChar_of_read? hRead)
      have hOpens := hProperty.opens (property_mem kind) behind
      rw [← hOut] at hOpens
      exact absurd hOpens (hHere out)

/-- A pass goes over what another one has written. -/
theorem exists_of_replacement (hValue : ∀ c ∈ value, isValueChar c = true)
    (h : Resolves t directory kinds ((replacement t directory kind value).toList ++ rest) out) :
    ∃ more, out = (replacement t directory kind value).toList ++ more ∧
      Resolves t directory kinds rest more := by
  have hNone : ∀ other ∈ kinds,
      read? other ((replacement t directory kind value).toList ++ rest) = none := fun other _ =>
    read?_replacement t directory hValue rest
  obtain ⟨c, tail, hText, hSilent⟩ :=
    (isProperty_replacement t directory kind hValue).exists_tail (property_mem kind)
  rw [hText] at h hNone ⊢
  obtain ⟨behind, rfl, hRest⟩ := h.exists_of_none hNone
  obtain ⟨more, rfl, hMore⟩ := hRest.exists_of_silent hSilent
  exact ⟨more, rfl, hMore⟩

/-- One pass after another is a pass for the kinds of both. -/
theorem trans (hFirst : Resolves t directory first cs mid)
    (hSecond : Resolves t directory second mid out) :
    Resolves t directory (first ∪ second) cs out := by
  induction hLength : cs.length using Nat.strongRecOn generalizing cs mid out with
  | ind length ih =>
    subst hLength
    cases hFirst with
    | done =>
      obtain rfl := hSecond.eq_nil
      exact .done
    | found hKind hRead hRest =>
      obtain ⟨more, rfl, hMore⟩ := hSecond.exists_of_replacement (isValueChar_of_read? hRead)
      exact .found (.inl hKind) hRead (ih _ (length_lt_of_read? hRead) hRest hMore rfl)
    | @plain c cs mid hNone hRest =>
      cases hSecond with
      | plain hNoneBehind hRestBehind =>
        refine .plain ?_ (ih _ (Nat.lt_succ_self _) hRest hRestBehind rfl)
        rintro kind (hKind | hKind)
        · exact hNone kind hKind
        · -- what could be read in the text is still there after the first pass
          rw [Option.eq_none_iff_forall_ne_some]
          rintro ⟨value, rest⟩ hRead
          obtain ⟨tail, hSilent, rfl, hAlways⟩ := exists_tail_of_read? hRead
          obtain ⟨more, rfl, -⟩ := hRest.exists_of_silent hSilent
          have hStill := hAlways more
          rw [hNoneBehind kind hKind] at hStill
          cases hStill
      | found hKind hRead hRestBehind =>
        -- what is read after the first pass was there before
        obtain ⟨tail, hSilent, rfl, hAlways⟩ := exists_tail_of_read? hRead
        obtain ⟨rest, rfl, hMore⟩ := hRest.exists_of_silent_out hSilent
        have hShorter := length_lt_of_read? (hAlways rest)
        exact .found (.inr hKind) (hAlways rest) (ih _ hShorter hMore hRestBehind rfl)

end Resolves

/-- The pieces of a cut, written one after the other. -/
theorem resolves_of_cuts {before : Option Char} {pieces : List (Char ⊕ List Char)}
    (h : Cuts (reading (read? kind)) before cs pieces) :
    Resolves t directory {kind} cs (pieces.flatMap (Sum.elim (fun c => [c]) fun value =>
      (replacement t directory kind value).toList)) := by
  induction h with
  | done => exact .done
  | plain hNone hRest ih =>
    refine .plain ?_ ih
    rintro _ rfl
    exact Option.map_eq_none_iff.1 hNone
  | found hText hHere hRest ih =>
    subst hText
    exact .found rfl (eq_of_reading (fun _ _ _ => exists_taken_of_read?) hHere) ih

/-- A pass for one kind. -/
theorem resolves_resolve (t : FileTree) (directory : String) (kind : ResourceKind)
    (text : String) :
    Resolves t directory {kind} text.toList (resolve t directory kind text).toList := by
  have hWithin : StaysWithin (reading (read? kind)) :=
    staysWithin_reading fun _ _ _ hRead => length_lt_of_read? hRead
  rw [resolve, String.toList_ofList, replace_eq]
  exact resolves_of_cuts ((cuts_iff hWithin).2 rfl)

theorem resolves_resolveAll (t : FileTree) (directory text : String) :
    Resolves t directory ({.template} ∪ {.style}) text.toList
      (resolveAll t directory text).toList :=
  (resolves_resolve t directory .template text).trans (resolves_resolve t directory .style _)

/-- **Rounds and orders.**  A second round over a text changes nothing, and it does not matter
whether the templates or the styles come first. -/
theorem resolveAll_idempotent_comm (t : FileTree) (directory text : String) :
    resolveAll t directory (resolveAll t directory text) = resolveAll t directory text ∧
      resolve t directory .style (resolve t directory .template text) =
        resolve t directory .template (resolve t directory .style text) := by
  have hOnce := resolves_resolveAll t directory text
  constructor
  · have hTwice := hOnce.trans (resolves_resolveAll t directory (resolveAll t directory text))
    rw [Set.union_self] at hTwice
    exact String.toList_inj.1 (hOnce.unique hTwice)
  · have hOther := (resolves_resolve t directory .style text).trans
      (resolves_resolve t directory .template _)
    rw [Set.union_comm] at hOther
    exact String.toList_inj.1 (hOther.unique hOnce)

/-- A name within a reference is left alone. -/
example : resolveAll ⟨[(["styleUrl.html"], .file [])], []⟩ "/"
    "templateUrl: 'styleUrl.html', styleUrl : './templateUrl'" =
      "template: require('./styleUrl.html'), style: ''" := by
  decide +kernel

end Passes

end Reference

end CompileHost
