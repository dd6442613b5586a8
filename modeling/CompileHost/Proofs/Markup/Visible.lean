import CompileHost.Proofs.Markup.Spacing

/-!
# What can be seen of a text

A reader of markup shows five kinds of white space as one space or not at all, and all others as
they are, the no-break space among them.  Collapsing makes no such difference: any white space of
any kind counts as a part of a run.  So a character of the other kinds stays only where it makes up
a run by itself that is no gap between two tags, behind one character and in front of another.

* `shown`: the characters that can be seen.
* `StandsAlone`: the places at which white space is left as it is.
* `Respaced.shown_eq_iff`: which texts lose nothing.
* `shown_minify_iff`: this, for all texts that are minified.
-/

namespace CompileHost.Markup

open Text

variable {tag cs out run rest front back : List Char} {before : Option Char} {c d : Char}

/-- White space of which markup shows one space at most. -/
def isHtmlBlank (c : Char) : Bool :=
  c == '\t' || c == '\n' || c == '\x0c' || c == '\r' || c == ' '

/-- The characters that can be seen. -/
def shown (cs : List Char) : List Char :=
  cs.filter (!isHtmlBlank ·)

/-- Between the two parts of a text there are other characters than white space on both sides, and
they are not the brackets of two tags. -/
def StandsAlone (front back : List Char) : Prop :=
  ∃ a b, front.getLast? = some a ∧ back.head? = some b ∧ isBlank a = false ∧ isBlank b = false ∧
    ¬ (a = '>' ∧ b = '<')

/-- In a text behind the character `before`, all white space that can be seen stands alone. -/
def AloneBehind (before : Option Char) (cs : List Char) : Prop :=
  ∀ front c back, cs = front ++ c :: back → isBlank c = true → isHtmlBlank c = false →
    StandsAlone (before.toList ++ front) back

theorem shown_append (front back : List Char) : shown (front ++ back) = shown front ++ shown back :=
  List.filter_append ..

theorem isHtmlBlank_of_not_blank (hc : isBlank c = false) : isHtmlBlank c = false := by
  simp only [isHtmlBlank, Bool.or_eq_false_iff, beq_eq_false_iff_ne]
  refine ⟨⟨⟨⟨?_, ?_⟩, ?_⟩, ?_⟩, ?_⟩ <;> rintro rfl <;> cases hc

theorem shown_cons_of_not_blank (hc : isBlank c = false) (cs : List Char) :
    shown (c :: cs) = c :: shown cs :=
  List.filter_cons_of_pos (by simp [isHtmlBlank_of_not_blank hc])

theorem append_eq_append_iff_of_sublist {α : Type} {a a' b b' : List α} (ha : a'.Sublist a)
    (hb : b'.Sublist b) : a' ++ b' = a ++ b ↔ a' = a ∧ b' = b := by
  refine ⟨fun hSame => ?_, fun h => h.1 ▸ h.2 ▸ rfl⟩
  have hLengths := congrArg List.length hSame
  rw [List.length_append, List.length_append] at hLengths
  have hLess := ha.length_le
  have hLess' := hb.length_le
  exact List.append_inj hSame (by omega)

/-! ## One run -/

/-- A single character of white space that is neither at the beginning nor between two tags. -/
def IsLone (before : Option Char) (run : List Char) (c : Char) : Prop :=
  run.length = 1 ∧ ∃ b, before = some b ∧ ¬ (b = '>' ∧ c = '<')

theorem shown_squeezed_singleton (d : Char) : shown (squeezed [d]) = shown [d] := by
  by_cases hSqueezes : Squeezes [d]
  · rcases hSqueezes with hLength | hBreak
    · exact absurd hLength (Nat.not_succ_le_self 1)
    · simp only [List.cons.injEq, and_true] at hBreak
      rcases hBreak with rfl | rfl | rfl <;> rfl
  · rw [squeezed, if_neg hSqueezes]

theorem shown_between_of_lone (h : IsLone before run c) :
    shown (between tag before run c rest) = shown run := by
  obtain ⟨hLength, b, rfl, hTags⟩ := h
  obtain ⟨d, rfl⟩ := List.length_eq_one_iff.1 hLength
  rw [between, closedRun, if_neg fun hGap => hTags ⟨hGap.1, hGap.2.1⟩]
  exact shown_squeezed_singleton d

theorem shown_between_of_not_lone (h : ¬ IsLone before run c) :
    shown (between tag before run c rest) = [] := by
  cases before with
  | none => rfl
  | some b =>
    rw [between, closedRun]
    split
    · split <;> rfl
    next hNoGap =>
      by_cases hNil : run = []
      · rw [hNil]
        rfl
      · have hLong : 2 ≤ run.length := by
          have hPositive := List.length_pos_iff.2 hNil
          have hNotOne : run.length ≠ 1 := fun hOne =>
            h ⟨hOne, b, rfl, fun hTags => hNoGap ⟨hTags.1, hTags.2, hNil⟩⟩
          omega
        rw [squeezed, if_pos (.inl hLong)]
        rfl

theorem StandsAlone.not_blank_behind (h : StandsAlone front (d :: back)) : isBlank d = false := by
  obtain ⟨a, b, -, hb, -, hOther, -⟩ := h
  obtain rfl := Option.some.inj hb
  exact hOther

theorem StandsAlone.not_blank_before (h : StandsAlone (front ++ [d]) back) :
    isBlank d = false := by
  obtain ⟨a, b, ha, -, hOther, -, -⟩ := h
  rw [List.getLast?_concat] at ha
  obtain rfl := Option.some.inj ha
  exact hOther

/-- A character of a run stands alone exactly if the run does. -/
theorem standsAlone_iff (hBefore : ∀ b ∈ before, isBlank b = false) (hRun : IsRun run)
    (hc : isBlank c = false) (hText : run = front ++ d :: back) :
    StandsAlone (before.toList ++ front) (back ++ c :: rest) ↔ IsLone before run c := by
  subst hText
  cases back with
  | cons e back =>
    refine iff_of_false (fun h => ?_) fun ⟨hLength, _⟩ => ?_
    · have hBlank := hRun e (by simp)
      exact Bool.noConfusion (h.not_blank_behind.symm.trans hBlank)
    · simp at hLength
      omega
  | nil =>
    rcases List.eq_nil_or_concat front with rfl | ⟨front, e, rfl⟩
    · constructor
      · rintro ⟨a, b, ha, hb, -, -, hTags⟩
        obtain rfl := Option.some.inj hb
        cases before with
        | none => cases ha
        | some b => exact ⟨rfl, a, ha, hTags⟩
      · rintro ⟨-, b, rfl, hTags⟩
        exact ⟨b, c, rfl, rfl, hBefore b rfl, hc, hTags⟩
    · refine iff_of_false (fun h => ?_) fun ⟨hLength, _⟩ => ?_
      · have hBlank := hRun e (by simp)
        rw [List.concat_eq_append, ← List.append_assoc] at h
        exact Bool.noConfusion (h.not_blank_before.symm.trans hBlank)
      · simp at hLength

/-- A run in which nothing stands alone has nothing that can be seen, or loses it. -/
theorem shown_eq_nil_iff {P : List Char → List Char → Prop} (hRun : IsRun run)
    (hNone : ∀ front d back, run = front ++ d :: back → ¬ P front back) :
    shown run = [] ↔ ∀ front d back, run = front ++ d :: back → isBlank d = true →
      isHtmlBlank d = false → P front back := by
  have hAll : shown run = [] ↔ ∀ d ∈ run, isHtmlBlank d = true := by simp [shown]
  rw [hAll]
  constructor
  · intro hHidden front d back hText _ hShown
    rw [hHidden d (by simp [hText])] at hShown
    cases hShown
  · intro hPlaces d hd
    obtain ⟨front, back, hText⟩ := List.append_of_mem hd
    by_contra hShown
    exact hNone front d back hText (hPlaces front d back hText (hRun d hd) (by simpa using hShown))

/-- A run loses nothing that can be seen exactly if all of that stands alone. -/
theorem shown_between_eq_iff (hBefore : ∀ b ∈ before, isBlank b = false) (hRun : IsRun run)
    (hc : isBlank c = false) :
    shown (between tag before run c rest) = shown run ↔
      ∀ front d back, run = front ++ d :: back → isBlank d = true → isHtmlBlank d = false →
        StandsAlone (before.toList ++ front) (back ++ c :: rest) := by
  by_cases hLone : IsLone before run c
  · refine iff_of_true (shown_between_of_lone hLone) fun front d back hText _ _ => ?_
    exact (standsAlone_iff hBefore hRun hc hText).2 hLone
  · rw [shown_between_of_not_lone hLone, eq_comm]
    exact shown_eq_nil_iff hRun fun front d back hText =>
      (standsAlone_iff hBefore hRun hc hText).not.2 hLone

theorem sublist_shown_between : (shown (between tag before run c rest)).Sublist (shown run) := by
  by_cases hLone : IsLone before run c
  · rw [shown_between_of_lone hLone]
  · rw [shown_between_of_not_lone hLone]
    exact List.nil_sublist _

/-! ## Whole texts -/

theorem standsAlone_append_cons_iff (before front : List Char) :
    StandsAlone (before ++ c :: front) back ↔ StandsAlone (c :: front) back := by
  rw [StandsAlone, StandsAlone, List.getLast?_append_cons]

/-- The places of a run, and those behind it. -/
theorem aloneBehind_append_cons_iff (hc : isBlank c = false) :
    AloneBehind before (run ++ c :: rest) ↔
      (∀ front d back, run = front ++ d :: back → isBlank d = true → isHtmlBlank d = false →
        StandsAlone (before.toList ++ front) (back ++ c :: rest)) ∧ AloneBehind (some c) rest := by
  constructor
  · intro h
    refine ⟨fun front d back hText => ?_, fun front d back hText hd hShown => ?_⟩
    · exact h front d (back ++ c :: rest) (by simp [hText])
    · have hPlace := h (run ++ c :: front) d back (by simp [hText]) hd hShown
      rwa [← List.append_assoc, standsAlone_append_cons_iff] at hPlace
  · rintro ⟨hHere, hBehind⟩ front d back hText hd hShown
    rcases append_cons_cases hText with ⟨mid, hRun, rfl⟩ | ⟨-, rfl, -⟩ | ⟨mid, rfl, hRest⟩
    · exact hHere front d mid hRun hd hShown
    · rw [hd] at hc
      cases hc
    · rw [← List.append_assoc, standsAlone_append_cons_iff]
      exact hBehind mid d back hRest hd hShown

theorem Respaced.sublist_shown (h : Respaced tag before cs out) :
    (shown out).Sublist (shown cs) := by
  induction h with
  | last => exact List.nil_sublist _
  | next hRun hc hRest ih =>
    rw [shown_append, shown_append, shown_cons_of_not_blank hc, shown_cons_of_not_blank hc]
    exact sublist_shown_between.append (ih.cons_cons _)

theorem Respaced.shown_eq_iff (h : Respaced tag before cs out)
    (hBefore : ∀ b ∈ before, isBlank b = false) :
    shown out = shown cs ↔ AloneBehind before cs := by
  induction h with
  | @last tag before run hRun =>
    rw [eq_comm]
    refine shown_eq_nil_iff hRun fun front d back hText => ?_
    -- behind it comes more white space, or the end
    rintro ⟨-, b, -, hb, -, hOther, -⟩
    rw [hRun b (by simp [hText, List.mem_of_mem_head? hb])] at hOther
    cases hOther
  | @next tag before run c rest out hRun hc hRest ih =>
    have hBehind := ih (by simpa using hc)
    rw [shown_append, shown_append, shown_cons_of_not_blank hc, shown_cons_of_not_blank hc,
      append_eq_append_iff_of_sublist sublist_shown_between (hRest.sublist_shown.cons_cons c),
      shown_between_eq_iff hBefore hRun hc, List.cons_inj_right, hBehind,
      aloneBehind_append_cons_iff hc]

theorem Respaced.filter_eq (h : Respaced tag before cs out) :
    out.filter (!isBlank ·) = cs.filter (!isBlank ·) := by
  have hNone : ∀ {run : List Char}, IsRun run → run.filter (!isBlank ·) = [] := fun hRun =>
    List.filter_eq_nil_iff.2 fun c hc => by simp [hRun c hc]
  induction h with
  | last hRun => exact (hNone hRun).symm
  | next hRun hc hRest ih =>
    rw [List.filter_append, List.filter_append, hNone hRun, hNone (isRun_between hRun),
      List.filter_cons_of_pos (by simp [hc]), List.filter_cons_of_pos (by simp [hc]), ih]

/-- **What can be seen.**  Collapsing white space keeps all other characters, and it keeps all
characters that can be seen exactly if those among them that are white space stand alone. -/
theorem shown_minify_iff (surround : List String) (html : String) :
    (minify (collapsing surround) html).toList.filter (!isBlank ·) =
        html.toList.filter (!isBlank ·) ∧
      (shown (minify (collapsing surround) html).toList = shown html.toList ↔
        ∀ front c back, html.toList = front ++ c :: back → isBlank c = true →
          isHtmlBlank c = false → StandsAlone front back) := by
  have hRespaced := respaced_collapseWhitespace html.toList
  rw [← toList_minify_collapsing surround html] at hRespaced
  exact ⟨hRespaced.filter_eq, hRespaced.shown_eq_iff nofun⟩

/-- Two no-break spaces side by side. -/
theorem no_break_spaces_lost :
    let html := "a\u00a0\u00a0b"
    minify (collapsing ["@", ":"]) html = "a b" ∧
      shown (minify (collapsing ["@", ":"]) html).toList ≠ shown html.toList := by
  decide +kernel

end CompileHost.Markup
