import CompileHost.Proofs.Stylesheet.Spaces

/-!
# Comments of a stylesheet

A comment goes from `/*` to the first `*/` behind that.  Whether one begins at a place may depend
on all of the text that follows, but the spaces that go beside marks do not matter: they are no
part of `/*` or `*/`, and bring neither together.

* `HoldsComment`, `holdsComment_iff`: a complete comment somewhere in a text.
* `Sheds.holdsComment_iff`: a space that goes takes no comment with it and brings none about.
* `Tightens.holdsComment_iff`: comments stay when spaces go.
* `dropComments_eq_self_iff`: texts without comments, tabs and line breaks.
-/

namespace CompileHost.Stylesheet

open Text Relation

variable {a b cs rest front back behind : List Char} {c d e : Char} {u : Unit}

/-! ## Reading a comment -/

/-- Where a comment has been opened, it goes up to the first place where it is closed. -/
theorem comment?_opened (cs : List Char) :
    comment? ('/' :: '*' :: cs) =
      (splitBefore? "*/".toList cs).map fun (_, rest) => ((), rest.drop 2) :=
  rfl

theorem comment?_of_not_opened (h : ¬ ['/', '*'] <+: cs) : comment? cs = none := by
  have hNone : stripStart? "/*".toList cs = none := by
    rw [Option.eq_none_iff_forall_ne_some]
    intro rest hRest
    exact h ⟨rest, (stripStart?_eq_some_iff.1 hRest).symm⟩
  rw [comment?, hNone]
  rfl

theorem comment?_eq_none_iff :
    comment? cs = none ↔ ∀ behind, cs = '/' :: '*' :: behind → ¬ ['*', '/'] <:+: behind := by
  by_cases hOpened : ['/', '*'] <+: cs
  · obtain ⟨behind, rfl⟩ := hOpened
    change comment? ('/' :: '*' :: behind) = none ↔ _
    rw [comment?_opened, Option.map_eq_none_iff, splitBefore?_eq_none_iff]
    constructor
    · rintro hNone _ hText
      obtain ⟨-, hText⟩ := List.cons.inj hText
      obtain rfl := (List.cons.inj hText).2
      exact hNone
    · exact fun hAll => hAll behind rfl
  · refine iff_of_true (comment?_of_not_opened hOpened) fun behind hText => ?_
    exact absurd ⟨behind, hText.symm⟩ hOpened

theorem exists_of_comment? (h : comment? cs = some (u, rest)) :
    ∃ body, cs = '/' :: '*' :: (body ++ '*' :: '/' :: rest) := by
  have hOpened : ['/', '*'] <+: cs := by
    by_contra hNot
    rw [comment?_of_not_opened hNot] at h
    cases h
  obtain ⟨behind, rfl⟩ := hOpened
  change comment? ('/' :: '*' :: behind) = _ at h
  rw [comment?_opened, Option.map_eq_some_iff] at h
  obtain ⟨⟨body, closed⟩, hCut, hPair⟩ := h
  obtain ⟨rfl, hFirst⟩ := splitBefore?_eq_some_iff.1 hCut
  obtain ⟨rest, rfl⟩ := hFirst.found
  obtain ⟨-, rfl⟩ := Prod.mk.inj hPair
  exact ⟨body, rfl⟩

theorem consumes_comment? : Consumes comment? := by
  intro cs u rest h
  obtain ⟨body, rfl⟩ := exists_of_comment? h
  exact ⟨'/' :: '*' :: (body ++ ['*', '/']), List.cons_ne_nil _ _, by simp⟩

/-- A character that is no part of what opens or closes a comment. -/
def isPlain (c : Char) : Bool :=
  c ≠ '/' && c ≠ '*'

theorem comment?_cons_of_plain (hc : isPlain c = true) : comment? (c :: cs) = none := by
  refine comment?_of_not_opened fun h => ?_
  obtain ⟨rfl, -⟩ := List.cons_prefix_cons.1 h
  cases hc

theorem isPlain_iff : isPlain c = true ↔ c ∉ ['/', '*'] ∧ c ∉ ['*', '/'] := by
  simp [isPlain, and_comm]

/-- What is read at a place in front of a plain character, if a comment is opened there. -/
theorem comment?_opened_append (hc : isPlain c = true) (cs rest : List Char) :
    comment? ('/' :: '*' :: (cs ++ c :: rest)) =
      match comment? ('/' :: '*' :: cs) with
      | some (u, behind) => some (u, behind ++ c :: rest)
      | none => comment? ('/' :: '*' :: rest) := by
  have hPlain : c ∉ "*/".toList := (isPlain_iff.1 hc).2
  rw [comment?_opened, comment?_opened, comment?_opened,
    splitBefore?_append_cons hPlain (by decide)]
  cases hCut : splitBefore? "*/".toList cs with
  | none =>
    rw [Option.map_map]
    rfl
  | some found =>
    obtain ⟨body, closed⟩ := found
    obtain ⟨behind, rfl⟩ := (splitBefore?_eq_some_iff.1 hCut).2.found
    rfl

theorem not_opened_append (hc : isPlain c = true) (h : ¬ ['/', '*'] <+: cs) (rest : List Char) :
    comment? (cs ++ c :: rest) = none := by
  refine comment?_of_not_opened ?_
  rwa [prefix_append_cons_iff (isPlain_iff.1 hc).1]

/-- A comment that is complete in front of a plain character. -/
theorem comment?_append_of_some (hc : isPlain c = true) (h : comment? cs = some (u, behind))
    (rest : List Char) : comment? (cs ++ c :: rest) = some (u, behind ++ c :: rest) := by
  obtain ⟨body, rfl⟩ := exists_of_comment? h
  have hText := comment?_opened_append hc (body ++ '*' :: '/' :: behind) rest
  rw [h] at hText
  exact hText

/-- A comment that goes on behind a plain character, for another one or for two of them. -/
theorem comment?_append_of_none (hc : isPlain c = true) (hd : isPlain d = true)
    (he : isPlain e = true) (h : comment? cs = none) (rest : List Char) :
    comment? (cs ++ c :: d :: rest) = comment? (cs ++ e :: rest) := by
  by_cases hOpened : ['/', '*'] <+: cs
  · obtain ⟨behind, rfl⟩ := hOpened
    have hNone : comment? ('/' :: '*' :: behind) = none := h
    have hTwo := comment?_opened_append hc behind (d :: rest)
    have hSecond := comment?_opened_append hd [] rest
    have hOne := comment?_opened_append he behind rest
    rw [hNone] at hTwo hOne
    exact hTwo.trans (hSecond.trans hOne.symm)
  · rw [not_opened_append hc hOpened, not_opened_append he hOpened]

theorem isPlain_of_isLoose (h : isLoose c = true) : isPlain c = true := by
  have hAll : [' ', '{', '}', ':', ';', ',', '!'].all isPlain = true := rfl
  exact List.all_eq_true.1 hAll c (of_decide_eq_true h)

/-! ## Complete comments -/

/-- A complete comment stands somewhere in a text. -/
def HoldsComment (cs : List Char) : Prop :=
  ∃ body, '/' :: '*' :: (body ++ ['*', '/']) <:+: cs

theorem comment?_ne_none_iff :
    comment? cs ≠ none ↔ ∃ body, '/' :: '*' :: (body ++ ['*', '/']) <+: cs := by
  rw [ne_eq, comment?_eq_none_iff]
  constructor
  · intro h
    push Not at h
    obtain ⟨behind, rfl, before, after, rfl⟩ := h
    exact ⟨before, after, by simp⟩
  · rintro ⟨body, after, rfl⟩ hNone
    exact hNone _ rfl ⟨body, after, by simp⟩

theorem holdsComment_iff :
    HoldsComment cs ↔ ∃ later, later <:+ cs ∧ comment? later ≠ none := by
  simp only [HoldsComment, comment?_ne_none_iff, List.infix_iff_prefix_suffix]
  constructor
  · rintro ⟨body, later, hPrefix, hSuffix⟩
    exact ⟨later, hSuffix, body, hPrefix⟩
  · rintro ⟨later, hSuffix, body, hPrefix⟩
    exact ⟨body, later, hPrefix, hSuffix⟩

theorem holdsComment_cons_iff :
    HoldsComment (c :: cs) ↔ comment? (c :: cs) ≠ none ∨ HoldsComment cs := by
  simp only [HoldsComment, comment?_ne_none_iff, List.infix_cons_iff, exists_or]

theorem holdsComment_cons_of_plain (hc : isPlain c = true) :
    HoldsComment (c :: cs) ↔ HoldsComment cs := by
  rw [holdsComment_cons_iff, or_iff_right (not_not.2 (comment?_cons_of_plain hc))]

theorem Sheds.holdsComment_iff (h : Sheds a b) : HoldsComment a ↔ HoldsComment b := by
  obtain ⟨front, c, d, e, back, rfl, rfl, hLoose, -⟩ := h.exists_pair
  have hPlain := fun x hx => isPlain_of_isLoose (hLoose x hx)
  simp only [List.forall_mem_cons] at hPlain
  obtain ⟨hc, hd, he, -⟩ := hPlain
  clear h
  induction front with
  | nil =>
    rw [List.nil_append, List.nil_append, holdsComment_cons_of_plain hc,
      holdsComment_cons_of_plain hd, holdsComment_cons_of_plain he]
  | cons x front ih =>
    have hHere : comment? (x :: front ++ c :: d :: back) ≠ none ↔
        comment? (x :: front ++ e :: back) ≠ none := by
      cases hFront : comment? (x :: front) with
      | none => rw [comment?_append_of_none hc hd he hFront]
      | some found =>
        obtain ⟨u, behind⟩ := found
        rw [comment?_append_of_some hc hFront, comment?_append_of_some he hFront]
        exact iff_of_true (Option.some_ne_none _) (Option.some_ne_none _)
    rw [List.cons_append] at hHere ⊢
    rw [List.cons_append, holdsComment_cons_iff, holdsComment_cons_iff]
    exact or_congr hHere ih

/-- Comments stay when spaces go, and none come. -/
theorem Tightens.holdsComment_iff (h : Tightens a b) : HoldsComment a ↔ HoldsComment b := by
  induction h with
  | refl => exact Iff.rfl
  | tail _ hStep ih => exact ih.trans hStep.holdsComment_iff

/-! ## The first step -/

/-- Reads what the first step drops: a comment, or a run of tabs and line breaks. -/
def dropped? (cs : List Char) : Option (Unit × List Char) :=
  (comment? cs).or (breaks? cs)

theorem dropComments_eq (cs : List Char) :
    dropComments cs = replace (reading dropped?) (fun _ => []) cs :=
  rfl

theorem breaks?_eq_some_iff :
    breaks? cs = some (u, rest) ↔
      (∃ c ∈ cs.head?, isBreak c = true) ∧ rest = cs.dropWhile isBreak := by
  rw [breaks?, Option.ite_none_right_eq_some, Option.any_eq_true, Option.some_inj, Prod.mk.injEq,
    and_iff_right rfl, eq_comm (b := rest)]
  rfl

theorem consumes_breaks? : Consumes breaks? := by
  intro cs u rest h
  obtain ⟨⟨c, hHead, hc⟩, rfl⟩ := breaks?_eq_some_iff.1 h
  refine ⟨cs.takeWhile isBreak, ?_, (List.takeWhile_append_dropWhile).symm⟩
  obtain ⟨cs, rfl⟩ := List.head?_eq_some_iff.1 hHead
  rw [List.takeWhile_cons_of_pos hc]
  exact List.cons_ne_nil _ _

theorem consumes_dropped? : Consumes dropped? := by
  intro cs u rest h
  rcases Option.or_eq_some_iff.1 h with hComment | ⟨-, hBreaks⟩
  · exact consumes_comment? cs u rest hComment
  · exact consumes_breaks? cs u rest hBreaks

theorem shortens_dropped? : Shortens dropped? fun _ => [] := by
  intro cs u rest h
  have hLess := consumes_dropped?.length_lt h
  rwa [List.length_nil, Nat.zero_add]

theorem dropped?_eq_none_iff :
    dropped? cs = none ↔ comment? cs = none ∧ ∀ c ∈ cs.head?, isBreak c = false := by
  rw [dropped?, Option.or_eq_none_iff, breaks?, ite_eq_right_iff]
  refine and_congr_right fun _ => ?_
  cases cs <;> simp

/-- The first step leaves a text alone exactly if there is nothing to drop. -/
theorem dropComments_eq_self_iff :
    dropComments cs = cs ↔ ¬ HoldsComment cs ∧ ∀ c ∈ cs, isBreak c = false := by
  rw [dropComments_eq, replace_eq_self_iff consumes_dropped? shortens_dropped?]
  simp only [dropped?_eq_none_iff, holdsComment_iff, not_exists, not_and, not_not]
  constructor
  · refine fun h => ⟨fun later hSuffix => (h later hSuffix).1, fun c hc => ?_⟩
    obtain ⟨front, back, rfl⟩ := List.append_of_mem hc
    exact (h (c :: back) (List.suffix_append front _)).2 c rfl
  · rintro ⟨hComments, hBreaks⟩ later hSuffix
    refine ⟨hComments later hSuffix, fun c hc => ?_⟩
    exact hBreaks c (hSuffix.subset (List.mem_of_mem_head? hc))

theorem isBreak_of_mem_dropComments (h : c ∈ dropComments cs) : isBreak c = false := by
  revert h
  refine replace_induction (motive := fun _ out => c ∈ out → isBreak c = false)
    consumes_dropped? (fun h => absurd h List.not_mem_nil) ?_ (fun _ _ _ _ ih => ih) cs
  intro d cs hNone ih hMem
  rcases List.mem_cons.1 hMem with rfl | hMem
  · exact (dropped?_eq_none_iff.1 hNone).2 c rfl
  · exact ih hMem

end CompileHost.Stylesheet
