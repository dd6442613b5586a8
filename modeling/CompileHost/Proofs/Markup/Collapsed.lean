import CompileHost.Proofs.Markup.Spacing

/-!
# Collapsed texts

Whether a gap between two tags is closed depends on the names of the tags.  Of a tag only the
beginning counts, up to the first white space or `>`, and there nothing is ever changed.  So each
gap that is left is one space between two inline tags, and in a text that is respaced once more the
same is decided for it again.

* `Respaced.opening_eq`: the beginnings of tags stay.
* `Respaced.gap_eq`: the gaps that are left.
* `Respaced.again`: a text that is respaced stays as it is.
* `minify_collapsing_stable`: both of these, for all texts that are minified.
-/

namespace CompileHost.Markup

open Text

variable {tag tag' cs out run rest front gap back : List Char} {before : Option Char} {b c : Char}

/-! ## The beginnings of tags -/

/-- A text up to the first white space or `>`. -/
def opening (cs : List Char) : List Char :=
  cs.takeWhile fun c => !isBlank c && c != '>'

theorem opening_cons_of_blank (hc : isBlank c = true) (cs : List Char) : opening (c :: cs) = [] :=
  List.takeWhile_cons_of_neg (by simp [hc])

theorem opening_cons (hc : isBlank c = false) (hBracket : c ≠ '>') (cs : List Char) :
    opening (c :: cs) = c :: opening cs :=
  List.takeWhile_cons_of_pos (by simp [hc, hBracket])

theorem opening_append_run (hRun : IsRun run) (hSome : run ≠ []) (cs : List Char) :
    opening (run ++ cs) = [] := by
  obtain ⟨c, run, rfl⟩ := List.exists_cons_of_ne_nil hSome
  exact opening_cons_of_blank (hRun c List.mem_cons_self) (run ++ cs)

theorem opening_run (hRun : IsRun run) : opening run = [] := by
  cases run with
  | nil => rfl
  | cons c run => exact opening_cons_of_blank (hRun c List.mem_cons_self) run

theorem opening_append_bracket (front back : List Char) :
    opening (front ++ '>' :: back) = opening front := by
  have hStop : opening ('>' :: back) = [] := List.takeWhile_cons_of_neg (by decide)
  rw [opening] at hStop
  rw [opening, List.takeWhile_append, hStop, List.append_nil]
  split
  next hWhole => exact (List.takeWhile_prefix _).eq_of_length hWhole |>.symm
  · rfl

theorem isTagChar_opening (hc : isTagChar c = true) : (!isBlank c && c != '>') = true := by
  rcases Bool.or_eq_true_iff.1 hc with hWord | hHyphen
  · have hBracket : c ≠ '>' := by
      rintro rfl
      cases hWord
    simp [isBlank_of_isAlphanum hWord, hBracket]
  · rw [eq_of_beq hHyphen]
    rfl

theorem takeWhile_isTagChar_opening (cs : List Char) :
    (opening cs).takeWhile isTagChar = cs.takeWhile isTagChar := by
  rw [opening, List.takeWhile_takeWhile]
  congr 1
  funext c
  by_cases hc : isTagChar c = true
  · simp [hc, isTagChar_opening hc]
  · simp [hc]

/-- The name of a tag stands at its beginning. -/
theorem tagName_opening (cs : List Char) : tagName (opening cs) = tagName cs := by
  fun_cases tagName cs with
  | case1 rest => exact takeWhile_isTagChar_opening rest
  | case2 _ hOther =>
    rw [← takeWhile_isTagChar_opening cs, tagName]
    intro rest hSlash
    obtain ⟨behind, hText⟩ := List.takeWhile_prefix (l := cs) fun c => !isBlank c && c != '>'
    rw [opening] at hSlash
    rw [hSlash] at hText
    exact hOther (rest ++ behind) hText.symm

theorem isInline_congr (h : opening cs = opening out) : isInline cs = isInline out := by
  rw [isInline, isInline, ← tagName_opening, h, tagName_opening]

/-- Behind any character but `>`, a text begins as it did before. -/
theorem Respaced.opening_eq (h : Respaced tag (some b) cs out) (hb : b ≠ '>') :
    opening out = opening cs := by
  generalize hBefore : some b = before at h
  induction h generalizing b with
  | last hRun => exact (opening_run hRun).symm
  | @next tag before run c rest out hRun hc hRest ih =>
    subst hBefore
    have hCopied : between tag (some b) run c rest = squeezed run := by
      rw [between, closedRun, if_neg fun hGap => hb hGap.1]
    rw [hCopied]
    by_cases hNil : run = []
    · have hEmpty : squeezed run = [] := squeezed_eq_nil_iff.2 hNil
      rw [hEmpty, hNil, List.nil_append, List.nil_append]
      by_cases hBracket : c = '>'
      · rw [hBracket]
        exact (opening_append_bracket [] out).trans (opening_append_bracket [] rest).symm
      · rw [opening_cons hc hBracket, opening_cons hc hBracket, ih hBracket rfl]
    · rw [opening_append_run hRun hNil,
        opening_append_run (isRun_squeezed hRun) (squeezed_eq_nil_iff.not.2 hNil)]

/-! ## The tag in front -/

/-- The text behind the last `<` of a text, or `tag` if there is none. -/
def lastTag (tag : List Char) : List Char → List Char
  | [] => tag
  | c :: cs => lastTag (tagBehind tag c cs) cs

theorem lastTag_run_append (hRun : IsRun run) (tag cs : List Char) :
    lastTag tag (run ++ cs) = lastTag tag cs := by
  induction run with
  | nil => rfl
  | cons c run ih =>
    obtain ⟨hc, hMore⟩ := List.forall_mem_cons.1 hRun
    rw [List.cons_append, lastTag, tagBehind_of_blank hc, ih hMore]

theorem lastTag_cases (tag cs : List Char) :
    (lastTag tag cs = tag ∧ '<' ∉ cs) ∨
      ∃ before, cs = before ++ '<' :: lastTag tag cs ∧ '<' ∉ lastTag tag cs := by
  induction cs generalizing tag with
  | nil => exact .inl ⟨rfl, List.not_mem_nil⟩
  | cons c cs ih =>
    rw [lastTag]
    rcases ih (tagBehind tag c cs) with ⟨hNone, hNot⟩ | ⟨before, hText, hNot⟩
    · rw [hNone]
      by_cases hc : c = '<'
      · refine .inr ⟨[], ?_, ?_⟩ <;> rw [tagBehind, if_pos hc]
        · rw [hc]
          rfl
        · exact hNot
      · refine .inl ⟨if_neg hc, ?_⟩
        rw [List.mem_cons, not_or]
        exact ⟨Ne.symm hc, hNot⟩
    · exact .inr ⟨c :: before, congrArg (c :: ·) hText, hNot⟩

/-- Behind the same characters, the same is decided for the tag in front. -/
theorem Respaced.isInline_tagBehind (h : Respaced (tagBehind tag c rest) (some c) rest out)
    (hTag : isInline tag' = isInline tag) (hFront : opening front = opening out) :
    isInline (tagBehind tag' c front) = isInline (tagBehind tag c rest) := by
  unfold tagBehind
  split
  next hc => exact isInline_congr (hFront.trans (h.opening_eq (by rw [hc]; decide)))
  · exact hTag

/-! ## The gaps that are left -/

/-- White space behind a `>` and in front of a `<`. -/
theorem Respaced.first_gap (h : Respaced tag (some '>') cs (gap ++ '<' :: back)) (hGap : IsRun gap)
    (hSome : gap ≠ []) : gap = [' '] ∧ isInline tag = true ∧ isInline back = true := by
  generalize hText : gap ++ '<' :: back = out at h
  cases h with
  | last => exact absurd hText (by simp)
  | @next _ _ run c rest out hRun hc hRest =>
    obtain ⟨hBetween, rfl, rfl⟩ :=
      append_cons_inj_of_run hGap (by decide) (isRun_between hRun) hc hText
    have hRunSome : run ≠ [] := by
      rintro rfl
      exact hSome hBetween
    have hClosed : gap = squeezed (if isInline tag && isInline rest then [' '] else []) := by
      rw [hBetween, between, closedRun, if_pos ⟨rfl, rfl, hRunSome⟩]
    by_cases hInline : (isInline tag && isInline rest) = true
    · rw [if_pos hInline] at hClosed
      obtain ⟨hTag, hNext⟩ := Bool.and_eq_true_iff.1 hInline
      exact ⟨hClosed, hTag, (isInline_congr (hRest.opening_eq (by decide))).trans hNext⟩
    · rw [if_neg hInline] at hClosed
      exact absurd hClosed hSome

/-- White space between two tags. -/
theorem Respaced.gap_eq (h : Respaced tag before cs out) (hTag : isInline tag' = isInline tag)
    (hText : out = front ++ '>' :: (gap ++ '<' :: back)) (hGap : IsRun gap) (hSome : gap ≠ []) :
    gap = [' '] ∧ isInline (lastTag tag' front) = true ∧ isInline back = true := by
  induction h generalizing tag' front with
  | last => exact absurd hText (by simp)
  | @next tag before run c rest out hRun hc hRest ih =>
    have hKept : IsRun (between tag before run c rest) := isRun_between hRun
    rcases append_cons_cases hText with ⟨mid, hFront, -⟩ | ⟨rfl, rfl, rfl⟩ | ⟨mid, rfl, rfl⟩
    · -- no bracket is white space
      exact absurd (hFront ▸ hKept) (not_isRun_append_cons (by decide))
    -- the text goes on with the gap, which is what has become of the next run
    · obtain ⟨hSpace, hInline, hNext⟩ := hRest.first_gap hGap hSome
      have hFront := lastTag_run_append hKept tag' []
      rw [List.append_nil] at hFront
      refine ⟨hSpace, ?_, hNext⟩
      rw [hFront]
      exact hTag.trans hInline
    · have hMid := hRest.isInline_tagBehind hTag (opening_append_bracket mid _).symm
      rw [lastTag_run_append hKept, lastTag]
      exact ih hMid rfl

/-! ## Once more -/

/-- What became of a run stays as it is. -/
theorem between_between (hTag : isInline tag' = isInline tag)
    (hRest : c = '<' → isInline out = isInline rest) :
    between tag' before (between tag before run c rest) c out = between tag before run c rest := by
  cases before with
  | none => rfl
  | some b =>
    by_cases hTags : b = '>' ∧ c = '<'
    · obtain ⟨rfl, rfl⟩ := hTags
      by_cases hNil : run = []
      · rw [hNil]
        rfl
      · have hClosed : between tag (some '>') run '<' rest =
            squeezed (if isInline tag && isInline rest then [' '] else []) := by
          rw [between, closedRun, if_pos ⟨rfl, rfl, hNil⟩]
        rw [hClosed, ← hTag, ← hRest rfl]
        by_cases hInline : (isInline tag' && isInline out) = true
        · have hAgain : closedRun tag' '>' [' '] '<' out = [' '] := by
            rw [closedRun, if_pos ⟨rfl, rfl, List.cons_ne_nil _ _⟩, if_pos hInline]
          rw [if_pos hInline]
          exact congrArg squeezed hAgain
        · rw [if_neg hInline]
          rfl
    · have hCopied : ∀ tag run rest, between tag (some b) run c rest = squeezed run := by
        intro tag run rest
        rw [between, closedRun, if_neg fun hGap => hTags ⟨hGap.1, hGap.2.1⟩]
      rw [hCopied, hCopied, squeezed_squeezed]

/-- A text that is respaced stays as it is. -/
theorem Respaced.again (h : Respaced tag before cs out) (hTag : isInline tag' = isInline tag) :
    Respaced tag' before out out := by
  induction h generalizing tag' with
  | last => exact .last nofun
  | @next tag before run c rest out hRun hc hRest ih =>
    have hBehind := hRest.isInline_tagBehind hTag rfl
    have hNext : c = '<' → isInline out = isInline rest := fun hc =>
      isInline_congr (hRest.opening_eq (by rw [hc]; decide))
    have hAgain : Respaced tag' before (between tag before run c rest ++ c :: out)
        (between tag' before (between tag before run c rest) c out ++ c :: out) :=
      .next (isRun_between hRun) hc (ih hBehind)
    rwa [between_between hTag hNext] at hAgain

/-- **Minified once and for all.**  To collapse white space twice is to collapse it once, and a gap
between two tags that is left is one space between two inline tags. -/
theorem minify_collapsing_stable (surround : List String) (html : String) :
    minify (collapsing surround) (minify (collapsing surround) html) =
        minify (collapsing surround) html ∧
      ∀ front gap back, (minify (collapsing surround) html).toList =
          front ++ '>' :: (gap ++ '<' :: back) → IsRun gap → gap ≠ [] →
        gap = [' '] ∧
          (∃ before tag, front = before ++ '<' :: tag ∧ '<' ∉ tag ∧ isInline tag = true) ∧
          isInline back = true := by
  have hRespaced := respaced_collapseWhitespace html.toList
  rw [← toList_minify_collapsing surround html] at hRespaced
  constructor
  · have hSame := (respaced_collapseWhitespace _).unique (hRespaced.again rfl)
    rw [← toList_minify_collapsing surround] at hSame
    exact String.toList_inj.1 hSame
  · intro front gap back hText hGap hSome
    obtain ⟨hSpace, hTag, hNext⟩ := hRespaced.gap_eq rfl hText hGap hSome
    refine ⟨hSpace, ?_, hNext⟩
    rcases lastTag_cases [] front with ⟨hNone, -⟩ | ⟨before, hFront, hNot⟩
    · rw [hNone] at hTag
      cases hTag
    · exact ⟨before, lastTag [] front, hFront, hNot, hTag⟩

/-- One gap is closed, and one becomes a space. -/
theorem gap_between_inline_tags :
    let small := minify (collapsing ["@", ":"]) "<p>\n <b>a</b>\n <i>b</i></p>"
    small = "<p><b>a</b> <i>b</i></p>" ∧ minify (collapsing ["@", ":"]) small = small ∧
      (∃ before tag, "<p><b>a</b".toList = before ++ '<' :: tag ∧ '<' ∉ tag ∧
        isInline tag = true) ∧ isInline "i>b</i></p>".toList = true := by
  intro small
  obtain ⟨hSame, hGaps⟩ :=
    minify_collapsing_stable ["@", ":"] "<p>\n <b>a</b>\n <i>b</i></p>"
  refine ⟨by decide +kernel, hSame, ?_⟩
  exact (hGaps "<p><b>a</b".toList [' '] "i>b</i></p>".toList (by decide +kernel)
    (isRun_singleton rfl) (List.cons_ne_nil _ _)).2

end CompileHost.Markup
