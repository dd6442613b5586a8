import CompileHost.Markup.Minify
import CompileHost.Proofs.Text.Blanks
import CompileHost.Proofs.Text.Replacing

/-!
# White space, run by run

White space is collapsed in three rounds over the whole text.  What comes of it is told run by run:
a run of white space at either end goes, one between two tags becomes a space or nothing, and any
other is squeezed.  All other characters stay.

* `between`: what becomes of a run, by what stands around it.
* `Respaced`: a text with this done to all of its runs.
* `respaced_collapseWhitespace`: that is what the three rounds come to.
* `Respaced.unique`: a text is respaced in one way only.
-/

namespace CompileHost.Markup

open Text

variable {tag cs out other run rest : List Char} {before : Option Char} {b c : Char}

/-! ## Runs of white space -/

/-- A run that becomes a space: a longer one, or one that breaks the line. -/
abbrev Squeezes (run : List Char) : Prop :=
  2 ≤ run.length ∨ run = ['\t'] ∨ run = ['\r'] ∨ run = ['\n']

/-- What becomes of a run of white space on its own. -/
def squeezed (run : List Char) : List Char :=
  if Squeezes run then [' '] else run

theorem isRun_squeezed (hRun : IsRun run) : IsRun (squeezed run) := by
  unfold squeezed
  split
  · exact isRun_singleton rfl
  · exact hRun

theorem not_squeezes_nil : ¬ Squeezes [] := by
  decide

theorem squeezed_eq_nil_iff : squeezed run = [] ↔ run = [] := by
  unfold squeezed
  split
  next hSqueezes =>
    refine iff_of_false (List.cons_ne_nil _ _) ?_
    rintro rfl
    exact not_squeezes_nil hSqueezes
  · rfl

theorem squeezed_squeezed (run : List Char) : squeezed (squeezed run) = squeezed run := by
  by_cases hSqueezes : Squeezes run
  · have hSpace : squeezed run = [' '] := if_pos hSqueezes
    rw [hSpace]
    rfl
  · have hSame : squeezed run = run := if_neg hSqueezes
    rw [hSame, hSame]

/-! ## The rounds -/

/-- The text behind the last `<`, behind one more character. -/
def tagBehind (tag : List Char) (c : Char) (rest : List Char) : List Char :=
  if c = '<' then rest else tag

theorem gap?_of_ne (hb : b ≠ '>') (cs : List Char) : gap? (b :: cs) = none := by
  unfold gap?
  split
  next hText => exact absurd (List.cons.inj hText).1 hb
  · rfl

theorem gap?_of_run (hRun : IsRun run) (b : Char) : gap? (b :: run) = none := by
  by_cases hb : b = '>'
  · subst hb
    have hTake : run.takeWhile isBlank = run := List.takeWhile_eq_self_iff.2 hRun
    rw [gap?, hTake, List.drop_length, if_neg (fun h => nomatch h.2)]
  · exact gap?_of_ne hb run

theorem gap?_append_cons (hRun : IsRun run) (hc : isBlank c = false) (b : Char) (rest : List Char) :
    gap? (b :: (run ++ c :: rest)) =
      if b = '>' ∧ c = '<' ∧ run ≠ [] then some (run.length + 2) else none := by
  by_cases hb : b = '>'
  · subst hb
    rw [gap?, takeWhile_run hRun (by simpa using hc), List.drop_left]
    simp [List.length_pos_iff, and_comm]
  · rw [gap?_of_ne hb, if_neg fun h => hb h.1]

theorem closeGapsFrom_cons_of_none (hNone : gap? (c :: cs) = none) :
    closeGapsFrom tag 0 (c :: cs) = c :: closeGapsFrom (tagBehind tag c cs) 0 cs := by
  rw [closeGapsFrom, hNone]
  rfl

theorem tagBehind_of_blank (hc : isBlank c = true) (tag rest : List Char) :
    tagBehind tag c rest = tag := by
  refine if_neg ?_
  rintro rfl
  cases hc

/-- Outside gaps, white space is copied. -/
theorem closeGapsFrom_run (hRun : IsRun run) (tag rest : List Char) :
    closeGapsFrom tag 0 (run ++ rest) = run ++ closeGapsFrom tag 0 rest := by
  induction run with
  | nil => rfl
  | cons c run ih =>
    obtain ⟨hc, hMore⟩ := List.forall_mem_cons.1 hRun
    have hOther : c ≠ '>' := by
      rintro rfl
      cases hc
    rw [List.cons_append, closeGapsFrom_cons_of_none (gap?_of_ne hOther _),
      tagBehind_of_blank hc, ih hMore]
    rfl

theorem closeGapsFrom_skip (hRun : IsRun run) (tag rest : List Char) (skip : Nat) :
    closeGapsFrom tag (run.length + skip) (run ++ rest) = closeGapsFrom tag skip rest := by
  induction run with
  | nil => rw [List.length_nil, Nat.zero_add, List.nil_append]
  | cons c run ih =>
    obtain ⟨hc, hMore⟩ := List.forall_mem_cons.1 hRun
    have hStep : closeGapsFrom tag (run.length + skip + 1) (c :: (run ++ rest)) =
        closeGapsFrom (tagBehind tag c (run ++ rest)) (run.length + skip) (run ++ rest) := rfl
    rw [List.length_cons, Nat.add_right_comm, List.cons_append, hStep, tagBehind_of_blank hc,
      ih hMore]

/-- What becomes of a run between two characters when gaps are closed: a gap between two inline tags
becomes a space, and any other gap goes.  `tag` is the text behind the last `<`. -/
def closedRun (tag : List Char) (b : Char) (run : List Char) (c : Char) (rest : List Char) :
    List Char :=
  if b = '>' ∧ c = '<' ∧ run ≠ [] then if isInline tag && isInline rest then [' '] else []
  else run

theorem isRun_closedRun (hRun : IsRun run) : IsRun (closedRun tag b run c rest) := by
  unfold closedRun
  split
  · split
    · exact isRun_singleton rfl
    · exact nofun
  · exact hRun

/-- Gaps are closed run by run. -/
theorem closeGapsFrom_cons (hRun : IsRun run) (hc : isBlank c = false) (tag : List Char) (b : Char)
    (rest : List Char) :
    closeGapsFrom tag 0 (b :: (run ++ c :: rest)) =
      b :: (closedRun (tagBehind tag b (run ++ c :: rest)) b run c rest ++
        closeGapsFrom (tagBehind tag b (run ++ c :: rest)) 0 (c :: rest)) := by
  by_cases hGap : b = '>' ∧ c = '<' ∧ run ≠ []
  · have hClosed : closedRun tag b run c rest =
        if isInline tag && isInline rest then [' '] else [] := if_pos hGap
    obtain ⟨rfl, rfl, hSome⟩ := hGap
    have hFound : gap? ('>' :: (run ++ '<' :: rest)) = some (run.length + 2) := by
      rw [gap?_append_cons hRun hc, if_pos ⟨rfl, rfl, hSome⟩]
    have hNext : ('>' :: (run ++ '<' :: rest)).drop (run.length + 2) = rest := by
      simp [List.drop_append]
    have hSkip : closeGapsFrom tag (run.length + 1) (run ++ '<' :: rest) =
        closeGapsFrom rest 0 rest := closeGapsFrom_skip hRun tag ('<' :: rest) 1
    have hTag : closeGapsFrom tag 0 ('<' :: rest) = '<' :: closeGapsFrom rest 0 rest :=
      closeGapsFrom_cons_of_none (gap?_of_ne (by decide) rest)
    have hSame : tagBehind tag '>' (run ++ '<' :: rest) = tag := rfl
    rw [hSame, hTag, hClosed, closeGapsFrom, hFound]
    dsimp only
    rw [hNext, Nat.add_succ_sub_one, hSkip]
    split <;> rfl
  · have hNone : gap? (b :: (run ++ c :: rest)) = none := by
      rw [gap?_append_cons hRun hc, if_neg hGap]
    rw [closeGapsFrom_cons_of_none hNone, closeGapsFrom_run hRun, closedRun, if_neg hGap]

theorem blankRun?_run (hRun : IsRun run) (hEnd : rest.head?.all (!isBlank ·) = true) :
    blankRun? (run ++ rest) = if Squeezes run then some ((), rest) else none := by
  rw [blankRun?, takeWhile_run hRun hEnd, dropWhile_run hRun hEnd]

theorem consumes_blankRun? : Consumes blankRun? := by
  intro cs u rest hRead
  obtain ⟨run, behind, rfl, hRun, hEnd⟩ := exists_run cs
  rw [blankRun?_run hRun hEnd, Option.ite_none_right_eq_some] at hRead
  obtain ⟨hSqueezes, hPair⟩ := hRead
  cases hPair
  refine ⟨run, ?_, rfl⟩
  rintro rfl
  exact not_squeezes_nil hSqueezes

theorem stopsAt_blankRun? (hc : isBlank c = false) : StopsAt (reading blankRun?) c := by
  intro before cs rest
  obtain ⟨run, behind, rfl, hRun, hEnd⟩ := exists_run cs
  have hFar : (behind ++ c :: rest).head?.all (!isBlank ·) = true := by
    cases behind with
    | nil => simpa using hc
    | cons d behind => exact hEnd
  rw [List.append_assoc, reading, reading, blankRun?_run hRun hEnd, blankRun?_run hRun hFar]
  split
  · simp
  · rfl

theorem squeezeBlanks_append_cons (hc : isBlank c = false) (cs rest : List Char) :
    squeezeBlanks (cs ++ c :: rest) = squeezeBlanks cs ++ c :: squeezeBlanks rest :=
  replace_append_cons (staysWithin_reading fun _ _ _ => consumes_blankRun?.length_lt)
    (blind_reading blankRun?) (stopsAt_blankRun? hc) _ cs rest

theorem squeezeBlanks_run (hRun : IsRun run) : squeezeBlanks run = squeezed run := by
  have hRead : blankRun? run = if Squeezes run then some ((), []) else none := by
    have hWhole : blankRun? (run ++ []) = if Squeezes run then some ((), []) else none :=
      blankRun?_run hRun rfl
    rwa [List.append_nil] at hWhole
  by_cases hSqueezes : Squeezes run
  · rw [if_pos hSqueezes] at hRead
    rw [squeezeBlanks, replace_of_read consumes_blankRun? hRead, squeezed, if_pos hSqueezes]
    rfl
  · rw [if_neg hSqueezes] at hRead
    rw [squeezed, if_neg hSqueezes]
    match run with
    | [] => rfl
    | [c] => rw [squeezeBlanks, replace_cons_of_none hRead, replace_nil]
    | c :: d :: run => exact absurd (.inl (Nat.le_add_left 2 run.length)) hSqueezes

/-! ## What becomes of each run -/

/-- What becomes of a run of white space behind the character `before`, if there is one, and in
front of `c` and the text `rest`. -/
def between (tag : List Char) (before : Option Char) (run : List Char) (c : Char)
    (rest : List Char) : List Char :=
  match before with
  | none => []
  | some b => squeezed (closedRun tag b run c rest)

/-- A text behind the character `before`, with each of its runs of white space replaced. -/
inductive Respaced : List Char → Option Char → List Char → List Char → Prop where
  | last {tag : List Char} {before : Option Char} {run : List Char} (hRun : IsRun run) :
      Respaced tag before run []
  | next {tag : List Char} {before : Option Char} {run : List Char} {c : Char}
      {rest out : List Char} (hRun : IsRun run) (hOther : isBlank c = false)
      (hRest : Respaced (tagBehind tag c rest) (some c) rest out) :
      Respaced tag before (run ++ c :: rest) (between tag before run c rest ++ c :: out)

theorem isRun_between (hRun : IsRun run) : IsRun (between tag before run c rest) := by
  cases before with
  | none => exact nofun
  | some b => exact isRun_squeezed (isRun_closedRun hRun)

/-- What the rounds come to behind a character that is no white space. -/
theorem exists_respaced (b : Char) (tag rest : List Char) :
    ∃ closed, closeGapsFrom tag 0 (b :: rest) = b :: closed ∧
      Respaced (tagBehind tag b rest) (some b) rest (trimEnd (squeezeBlanks closed)) := by
  -- from one run to the next, which is further on than one character
  induction hLength : rest.length using Nat.strongRecOn generalizing b tag rest with
  | ind length ih =>
    obtain ⟨run, rest, rfl, hRun, hEnd⟩ := exists_run rest
    cases rest with
    | nil =>
      have hCopy : closeGapsFrom (tagBehind tag b (run ++ [])) 0 (run ++ []) = run ++ [] :=
        closeGapsFrom_run hRun _ []
      rw [List.append_nil] at hCopy ⊢
      refine ⟨run, ?_, ?_⟩
      · rw [closeGapsFrom_cons_of_none (gap?_of_run hRun b), hCopy]
      · rw [squeezeBlanks_run hRun, trimEnd_run (isRun_squeezed hRun)]
        exact .last hRun
    | cons c rest =>
      have hc : isBlank c = false := by simpa using hEnd
      have hLess : rest.length < length := by
        rw [← hLength, List.length_append, List.length_cons]
        omega
      obtain ⟨closed, hClosed, hRespaced⟩ := ih rest.length hLess c _ rest rfl
      refine ⟨_, by rw [closeGapsFrom_cons hRun hc, hClosed], ?_⟩
      rw [squeezeBlanks_append_cons hc, squeezeBlanks_run (isRun_closedRun hRun),
        trimEnd_append_cons hc]
      exact .next hRun hc hRespaced

/-- Collapsing white space replaces each of its runs. -/
theorem respaced_collapseWhitespace (cs : List Char) :
    Respaced [] none cs (collapseWhitespace cs) := by
  obtain ⟨run, rest, rfl, hRun, hEnd⟩ := exists_run cs
  rw [collapseWhitespace, closeGaps, closeGapsFrom_run hRun]
  cases rest with
  | nil =>
    have hNothing : squeezeBlanks (run ++ closeGapsFrom [] 0 []) = squeezed run ++ [] := by
      rw [closeGapsFrom, List.append_nil, squeezeBlanks_run hRun, List.append_nil]
    rw [hNothing, trim_run_append (isRun_squeezed hRun) rfl, List.append_nil]
    exact .last hRun
  | cons c rest =>
    have hc : isBlank c = false := by simpa using hEnd
    obtain ⟨closed, hClosed, hRespaced⟩ := exists_respaced c [] rest
    have hText : trimEnd ([] ++ c :: squeezeBlanks closed) = c :: trimEnd (squeezeBlanks closed) :=
      trimEnd_append_cons hc [] _
    rw [List.nil_append] at hText
    rw [hClosed, squeezeBlanks_append_cons hc, squeezeBlanks_run hRun,
      trim_run_append (isRun_squeezed hRun) (by simpa using hc), hText]
    exact .next hRun hc hRespaced

/-- A text is respaced in one way only. -/
theorem Respaced.unique (h : Respaced tag before cs out) (hOther : Respaced tag before cs other) :
    out = other := by
  induction h generalizing other with
  | last hRun =>
    cases hOther with
    | last => rfl
    | next hRun' hc' => exact absurd hRun (not_isRun_append_cons hc')
  | @next tag before run c rest out hRun hc hRest ih =>
    generalize hText : run ++ c :: rest = cs at hOther
    cases hOther with
    | last hRun' => exact absurd (hText ▸ hRun') (not_isRun_append_cons hc)
    | next hRun' hc' hRest' =>
      obtain ⟨rfl, rfl, rfl⟩ := append_cons_inj_of_run hRun hc hRun' hc' hText
      rw [ih hRest']

/-! ## Minified texts -/

/-- The options by which nothing is done but to collapse white space. -/
def collapsing (surround : List String) : Options where
  removeComments := false
  useShortDoctype := false
  removeOptionalTags := false
  removeEmptyAttributes := false
  removeAttributeQuotes := false
  collapseBooleanAttributes := false
  customAttrSurround := surround

theorem toList_minify_collapsing (surround : List String) (html : String) :
    (minify (collapsing surround) html).toList = collapseWhitespace html.toList := by
  rw [minify, String.toList_ofList]
  rfl

end CompileHost.Markup
