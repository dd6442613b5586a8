import CompileHost.Text.Case

/-!
# Lower-case texts

Every character that lower-casing produces is its own lower-case form, so that a text is
lower-cased once and for all.  The characters that give a path its shape are neither produced nor
replaced, and what stands behind a slash has no influence on what stands before it.

* `lower_lower`: lower-casing is idempotent.
* `lower_append_slash`: it acts on the two sides of a slash separately.
* `mem_lower_iff`, `lower_eq_iff_of_marks`: it keeps the shape of a path.
* `ascii_or_of_mem_lowerAt`: which characters are lower-cased into letters of ASCII.
-/

namespace CompileHost.Text

/-! ## Runs -/

/-- A code point stays where it is, or its image is one of the images of a run. -/
theorem Runs.image_eq_or_mem (runs : Runs) (n : Nat) :
    runs.image n = n ∨ ∃ first last step target, (first, last, step, target) ∈ runs ∧
      target ≤ runs.image n ∧ runs.image n ≤ target + (last - first) ∧
      (runs.image n - target) % step = 0 := by
  induction runs with
  | nil => exact Or.inl rfl
  | cons run rest ih =>
    obtain ⟨first, last, step, target⟩ := run
    rw [Runs.image]
    by_cases hFirst : n < first
    · exact Or.inl (if_pos hFirst)
    · rw [if_neg hFirst]
      by_cases hRun : n ≤ last ∧ (n - first) % step = 0
      · right
        rw [if_pos hRun]
        refine ⟨first, last, step, target, List.mem_cons_self, by omega, by omega, ?_⟩
        rw [Nat.add_sub_cancel_left]
        exact hRun.2
      · rw [if_neg hRun]
        rcases ih with hSame | ⟨first', last', step', target', hMem, hImage⟩
        · exact Or.inl hSame
        · exact Or.inr ⟨first', last', step', target', List.mem_cons_of_mem _ hMem, hImage⟩

/-- Whether no run moves any of the code points `lo`, `lo + stride`, and so on up to `hi`.  Only
the bounds are compared, and whether the two sides are odd or even where both skip every other
code point. -/
def Runs.spares : Runs → Nat → Nat → Nat → Bool
  | [], _, _, _ => true
  | (first, last, step, _) :: rest, lo, hi, stride =>
    hi < first ||
      (last < lo || step == 2 && (stride == 2 || lo == hi) && (first + lo) % 2 == 1) &&
        Runs.spares rest lo hi stride

theorem Runs.image_of_spares {runs : Runs} {lo hi stride n : Nat}
    (hSpares : runs.spares lo hi stride = true) (hLo : lo ≤ n) (hHi : n ≤ hi)
    (hStride : (n - lo) % stride = 0) : runs.image n = n := by
  induction runs with
  | nil => rfl
  | cons run rest ih =>
    obtain ⟨first, last, step, target⟩ := run
    rw [Runs.image]
    by_cases hFirst : n < first
    · exact if_pos hFirst
    · simp only [Runs.spares, Bool.or_eq_true, Bool.and_eq_true, decide_eq_true_eq,
        beq_iff_eq] at hSpares
      rcases hSpares with hBelow | ⟨hHere, hRest⟩
      · omega
      · rw [if_neg hFirst, if_neg, ih hRest]
        rintro ⟨hLast, hStep⟩
        rcases hHere with hAbove | ⟨⟨hTwo, hEvery⟩, hOdd⟩
        · omega
        · subst hTwo
          rcases hEvery with rfl | rfl
          · omega
          · omega

/-! ## Single characters -/

/-- The characters that the shape of a path depends on. -/
def pathMarks : List Char := ['/', '\\', '.', ':']

/-- A character that lower-casing leaves as it is. -/
def Settled (c : Char) : Prop :=
  c ≠ 'Σ' ∧ lowerChar c = [c]

instance (c : Char) : Decidable (Settled c) :=
  inferInstanceAs (Decidable (_ ∧ _))

theorem settled_of_mark {c : Char} (hMark : c ∈ pathMarks) : Settled c := by
  have hAll : pathMarks.all (fun c => decide (Settled c)) = true := by decide
  exact of_decide_eq_true (List.all_eq_true.1 hAll c hMark)

private theorem ascii_lower :
    ∀ n < 0x80, Settled (Char.ofNat n).toLower ∧
      ((Char.ofNat n).toLower ∈ pathMarks → (Char.ofNat n).toLower = Char.ofNat n) ∧
      (0x5c < n → (Char.ofNat n).toLower = Char.ofNat n) := by
  decide +kernel

/-- No image of a run is moved again, or is `İ`.  All are characters, and come after the marks and
the upper-case letters of ASCII. -/
private theorem lowerRuns_images :
    ∀ run ∈ lowerRuns,
      lowerRuns.spares run.2.2.2 (run.2.2.2 + (run.2.1 - run.1)) run.2.2.1 = true ∧
      0x5c < run.2.2.2 ∧
      (run.2.2.2 + (run.2.1 - run.1) < 0x130 ∨ 0x130 < run.2.2.2) ∧
      (run.2.2.2 + (run.2.1 - run.1) < 0xd800 ∨
        0xdfff < run.2.2.2 ∧ run.2.2.2 + (run.2.1 - run.1) < 0x110000) := by
  decide +kernel

theorem toNat_ofNat_of_valid {n : Nat} (hValid : n < 0xd800 ∨ 0xdfff < n ∧ n < 0x110000) :
    (Char.ofNat n).toNat = n := by
  rw [Char.ofNat, dif_pos hValid]
  rfl

theorem toNat_image_of_moved {n : Nat} (hMoved : lowerRuns.image n ≠ n) :
    (Char.ofNat (lowerRuns.image n)).toNat = lowerRuns.image n := by
  obtain ⟨first, last, step, target, hRun, hLo, hHi, -⟩ :=
    (lowerRuns.image_eq_or_mem n).resolve_left hMoved
  obtain ⟨-, -, -, hValid⟩ := lowerRuns_images _ hRun
  dsimp only at hValid
  apply toNat_ofNat_of_valid
  omega

theorem settled_of_moved {n : Nat} (hMoved : lowerRuns.image n ≠ n) :
    Settled (Char.ofNat (lowerRuns.image n)) ∧
      Char.ofNat (lowerRuns.image n) ∉ pathMarks := by
  obtain ⟨first, last, step, target, hRun, hLo, hHi, hStep⟩ :=
    (lowerRuns.image_eq_or_mem n).resolve_left hMoved
  obtain ⟨hSpares, hPast, hDotted, -⟩ := lowerRuns_images _ hRun
  dsimp only at hPast hDotted
  have hFixed := Runs.image_of_spares hSpares hLo hHi hStep
  have hNat := toNat_image_of_moved hMoved
  generalize lowerRuns.image n = m at hLo hHi hFixed hNat ⊢
  refine ⟨⟨?_, ?_⟩, ?_⟩
  · intro hSigma
    have hMoves : lowerRuns.image 'Σ'.toNat ≠ 'Σ'.toNat := by decide +kernel
    rw [← hSigma, hNat] at hMoves
    exact hMoves hFixed
  · rw [lowerChar, hNat]
    split
    next hAscii => rw [(ascii_lower m hAscii).2.2 (by omega)]
    next =>
      have hOther : Char.ofNat m ≠ 'İ' := by
        intro h
        have hCode : m = 0x130 := by
          rw [← hNat, h]
          rfl
        omega
      rw [if_neg hOther, Runs.apply, hNat, hFixed]
  · intro hMark
    have hAll : pathMarks.all (fun c => decide (c.toNat ≤ 0x5c)) = true := by decide
    have h := of_decide_eq_true (List.all_eq_true.1 hAll _ hMark)
    omega

/-- A lower-case form is settled, and is no mark unless it is the character itself. -/
theorem lowerChar_spec {c d : Char} (hMem : d ∈ lowerChar c) :
    Settled d ∧ (d ∈ pathMarks → d = c) := by
  rw [lowerChar] at hMem
  split at hMem
  next hAscii =>
    have h := ascii_lower c.toNat hAscii
    rw [Char.ofNat_toNat] at h
    rw [List.mem_singleton.1 hMem]
    exact ⟨h.1, h.2.1⟩
  next hAscii =>
    split at hMem
    · have hAll : ['i', '\u0307'].all
          (fun d => decide (Settled d ∧ d ∉ pathMarks)) = true := by decide
      have h := of_decide_eq_true (List.all_eq_true.1 hAll d hMem)
      exact ⟨h.1, fun hMark => absurd hMark h.2⟩
    next hDotted =>
      by_cases hMoved : lowerRuns.image c.toNat = c.toNat
      · have hFixed : lowerRuns.apply c = c := by
          rw [Runs.apply, hMoved, Char.ofNat_toNat]
        have hd : d = c := by rw [List.mem_singleton.1 hMem, hFixed]
        refine ⟨⟨?_, ?_⟩, fun _ => hd⟩
        · intro hSigma
          have hMoves : lowerRuns.image 'Σ'.toNat ≠ 'Σ'.toNat := by decide +kernel
          rw [← hSigma, hd] at hMoves
          exact hMoves hMoved
        · rw [hd, lowerChar, if_neg hAscii, if_neg hDotted, hFixed]
      · rw [List.mem_singleton.1 hMem]
        exact ⟨(settled_of_moved hMoved).1, fun h => absurd h (settled_of_moved hMoved).2⟩

theorem lowerChar_ne_nil (c : Char) : lowerChar c ≠ [] := by
  fun_cases lowerChar c <;> simp

/-! ## Characters in their place -/

/-- What becomes of a character between the characters `seen`, the nearest first, and `cs`. -/
def lowerAt (seen : List Char) (c : Char) (cs : List Char) : List Char :=
  if c = 'Σ' then [if meetsCased seen && !meetsCased cs then 'ς' else 'σ'] else lowerChar c

theorem lowerAfter_cons (seen : List Char) (c : Char) (cs : List Char) :
    lowerAfter seen (c :: cs) = lowerAt seen c cs ++ lowerAfter (c :: seen) cs := rfl

theorem mem_of_mem_lowerAt_sigma {seen cs : List Char} {d : Char}
    (hMem : d ∈ lowerAt seen 'Σ' cs) : d ∈ ['ς', 'σ'] := by
  rw [lowerAt, if_pos rfl] at hMem
  rw [List.mem_singleton.1 hMem]
  split <;> simp

theorem lowerAt_of_ne {seen cs : List Char} {c : Char} (hSigma : c ≠ 'Σ') :
    lowerAt seen c cs = lowerChar c :=
  if_neg hSigma

theorem lowerAt_spec {seen cs : List Char} {c d : Char} (hMem : d ∈ lowerAt seen c cs) :
    Settled d ∧ (d ∈ pathMarks → d = c) := by
  by_cases hSigma : c = 'Σ'
  · subst hSigma
    have hAll : ['ς', 'σ'].all
        (fun d => decide (Settled d ∧ d ∉ pathMarks)) = true := by decide +kernel
    have h := of_decide_eq_true (List.all_eq_true.1 hAll d (mem_of_mem_lowerAt_sigma hMem))
    exact ⟨h.1, fun hMark => absurd hMark h.2⟩
  · rw [lowerAt_of_ne hSigma] at hMem
    exact lowerChar_spec hMem

theorem lowerAt_ne_nil (seen : List Char) (c : Char) (cs : List Char) :
    lowerAt seen c cs ≠ [] := by
  rw [lowerAt]
  split
  · simp
  · exact lowerChar_ne_nil c

theorem lowerAt_of_settled {c : Char} (hc : Settled c) (seen cs : List Char) :
    lowerAt seen c cs = [c] := by
  rw [lowerAt_of_ne hc.1, hc.2]

/-! ## Idempotence -/

theorem settled_of_mem_lowerAfter {seen cs : List Char} {d : Char}
    (hMem : d ∈ lowerAfter seen cs) : Settled d := by
  induction cs generalizing seen with
  | nil => cases hMem
  | cons c cs ih =>
    rcases List.mem_append.1 hMem with hHere | hLater
    · exact (lowerAt_spec hHere).1
    · exact ih hLater

theorem lowerAfter_of_settled {cs : List Char} (hAll : ∀ c ∈ cs, Settled c)
    (seen : List Char) : lowerAfter seen cs = cs := by
  induction cs generalizing seen with
  | nil => rfl
  | cons c cs ih =>
    rw [lowerAfter_cons, lowerAt_of_settled (hAll c List.mem_cons_self),
      ih fun c hc => hAll c (List.mem_cons_of_mem _ hc)]
    rfl

theorem lower_lower (s : String) : lower (lower s) = lower s := by
  have h : ∀ c ∈ (lower s).toList, Settled c := by
    intro c hc
    rw [lower, String.toList_ofList] at hc
    exact settled_of_mem_lowerAfter hc
  rw [lower, lowerAfter_of_settled h, String.ofList_toList]

theorem lower_eq_self_iff (s : String) : lower s = s ↔ ∀ c ∈ s.toList, Settled c := by
  constructor
  · intro hSame c hc
    rw [← hSame, lower, String.toList_ofList] at hc
    exact settled_of_mem_lowerAfter hc
  · intro hAll
    rw [lower, lowerAfter_of_settled hAll, String.ofList_toList]

/-! ## Slashes -/

/-- Nothing is looked for beyond a slash. -/
theorem meetsCased_append_slash (cs rest : List Char) :
    meetsCased (cs ++ '/' :: rest) = meetsCased cs := by
  have hStop : isCaseIgnorable '/' = false := by decide +kernel
  have hCase : isCased '/' = false := by decide
  rw [meetsCased, meetsCased, List.dropWhile_append]
  cases cs.dropWhile isCaseIgnorable with
  | nil =>
    rw [List.isEmpty_nil, if_pos rfl, List.dropWhile_cons, hStop]
    exact hCase
  | cons c later => rfl

theorem lowerAfter_congr {seen other : List Char}
    (hSeen : ∀ between, meetsCased (between ++ seen) = meetsCased (between ++ other))
    (cs : List Char) : lowerAfter seen cs = lowerAfter other cs := by
  induction cs generalizing seen other with
  | nil => rfl
  | cons c cs ih =>
    have hHere : lowerAt seen c cs = lowerAt other c cs := by
      rw [lowerAt, lowerAt, show meetsCased seen = meetsCased other from hSeen []]
    have hLater : ∀ between,
        meetsCased (between ++ c :: seen) = meetsCased (between ++ c :: other) := by
      intro between
      have h := hSeen (between ++ [c])
      rwa [List.append_assoc, List.append_assoc] at h
    rw [lowerAfter_cons, lowerAfter_cons, hHere, ih hLater]

theorem lowerAfter_append_slash (seen cs rest : List Char) :
    lowerAfter seen (cs ++ '/' :: rest) = lowerAfter seen cs ++ '/' :: lowerAfter [] rest := by
  induction cs generalizing seen with
  | nil =>
    have hSeen : ∀ between,
        meetsCased (between ++ '/' :: seen) = meetsCased (between ++ []) := by
      intro between
      rw [meetsCased_append_slash, List.append_nil]
    rw [List.nil_append, lowerAfter_cons, lowerAt_of_settled (settled_of_mark (by decide)),
      lowerAfter_congr hSeen]
    rfl
  | cons c cs ih =>
    have hHere : lowerAt seen c (cs ++ '/' :: rest) = lowerAt seen c cs := by
      rw [lowerAt, lowerAt, meetsCased_append_slash]
    rw [List.cons_append, lowerAfter_cons, hHere, ih, lowerAfter_cons, List.append_assoc]

theorem lower_append_slash (s rest : String) :
    lower (s ++ "/" ++ rest) = lower s ++ "/" ++ lower rest := by
  have hText : (s ++ "/" ++ rest).toList = s.toList ++ '/' :: rest.toList := by simp
  apply String.toList_inj.1
  rw [lower, hText, lowerAfter_append_slash]
  simp [lower]

/-! ## Marks -/

theorem mem_lowerAfter_iff {mark : Char} (hMark : mark ∈ pathMarks) (seen cs : List Char) :
    mark ∈ lowerAfter seen cs ↔ mark ∈ cs := by
  induction cs generalizing seen with
  | nil => exact Iff.rfl
  | cons c cs ih =>
    rw [lowerAfter_cons, List.mem_append, List.mem_cons, ih]
    refine or_congr_left ⟨fun h => (lowerAt_spec h).2 hMark, ?_⟩
    rintro rfl
    rw [lowerAt_of_settled (settled_of_mark hMark)]
    exact List.mem_singleton_self mark

theorem mem_lower_iff {mark : Char} (hMark : mark ∈ pathMarks) (s : String) :
    mark ∈ (lower s).toList ↔ mark ∈ s.toList := by
  rw [lower, String.toList_ofList, mem_lowerAfter_iff hMark]

/-- A text of marks is the lower-case form of nothing but itself. -/
theorem eq_of_lowerAfter_marks {seen cs word : List Char} (hMarks : ∀ c ∈ word, c ∈ pathMarks)
    (hLower : lowerAfter seen cs = word) : cs = word := by
  induction cs generalizing seen word with
  | nil => exact hLower
  | cons c cs ih =>
    subst hLower
    have hEvery : ∀ d ∈ lowerAt seen c cs, d = c := by
      intro d hd
      exact (lowerAt_spec hd).2 (hMarks d (List.mem_append_left _ hd))
    obtain ⟨d, hd⟩ := List.exists_mem_of_ne_nil _ (lowerAt_ne_nil seen c cs)
    have hc : c ∈ pathMarks := by
      rw [← hEvery d hd]
      exact hMarks d (List.mem_append_left _ hd)
    have hRest : cs = lowerAfter (c :: seen) cs :=
      ih (fun d hd => hMarks d (List.mem_append_right _ hd)) rfl
    rw [lowerAfter_cons, lowerAt_of_settled (settled_of_mark hc), ← hRest]
    rfl

theorem lower_eq_iff_of_marks {word : String}
    (hWord : word.toList.all (fun c => decide (c ∈ pathMarks)) = true) (s : String) :
    lower s = word ↔ s = word := by
  have hMarks : ∀ c ∈ word.toList, c ∈ pathMarks := by
    intro c hc
    exact of_decide_eq_true (List.all_eq_true.1 hWord c hc)
  constructor
  · intro h
    have hLower : lowerAfter [] s.toList = word.toList := by
      rw [← h, lower, String.toList_ofList]
    exact String.toList_inj.1 (eq_of_lowerAfter_marks hMarks hLower)
  · rintro rfl
    rw [lower, lowerAfter_of_settled fun c hc => settled_of_mark (hMarks c hc),
      String.ofList_toList]

theorem mem_lowerAt_of_lowerAfter_eq_cons {seen cs rest : List Char} {c d : Char}
    (hLower : lowerAfter seen (c :: cs) = d :: rest) : d ∈ lowerAt seen c cs := by
  obtain ⟨first, others, hHere⟩ := List.exists_cons_of_ne_nil (lowerAt_ne_nil seen c cs)
  rw [lowerAfter_cons, hHere] at hLower
  rw [hHere, (List.cons.inj hLower).1]
  exact List.mem_cons_self

/-- Where a text begins with a mark in lower case, it begins with that mark. -/
theorem exists_of_lowerAfter_eq_cons {mark : Char} (hMark : mark ∈ pathMarks)
    {seen cs rest : List Char} (hLower : lowerAfter seen cs = mark :: rest) :
    ∃ later, cs = mark :: later ∧ lowerAfter (mark :: seen) later = rest := by
  cases cs with
  | nil => cases hLower
  | cons c later =>
    have hMem := mem_lowerAt_of_lowerAfter_eq_cons hLower
    obtain rfl : mark = c := (lowerAt_spec hMem).2 hMark
    rw [lowerAfter_cons, lowerAt_of_settled (settled_of_mark hMark)] at hLower
    exact ⟨later, rfl, (List.cons.inj hLower).2⟩

/-! ## Letters of ASCII -/

theorem Runs.le_image {runs : Runs} {least n : Nat} (hLeast : least ≤ n)
    (hRuns : ∀ run ∈ runs, least ≤ run.2.2.2 ∨ n < run.1 ∨ run.2.1 < n) :
    least ≤ runs.image n := by
  induction runs with
  | nil => exact hLeast
  | cons run rest ih =>
    obtain ⟨first, last, step, target⟩ := run
    rw [List.forall_mem_cons] at hRuns
    obtain ⟨hHere, hRest⟩ := hRuns
    dsimp only at hHere
    have hLater := ih hRest
    rw [Runs.image]
    split
    · exact hLeast
    · split
      · omega
      · exact hLater

theorem toNat_lt_of_isAlpha {letter : Char} (hLetter : letter.isAlpha = true) :
    letter.toNat < 0x80 := by
  rcases Bool.or_eq_true_iff.1 hLetter with hUpper | hLower
  · have hLast := UInt32.le_iff_toNat_le.1 (of_decide_eq_true hUpper).2
    exact Nat.lt_of_le_of_lt hLast (by decide)
  · have hLast := UInt32.le_iff_toNat_le.1 (of_decide_eq_true (Bool.and_eq_true_iff.1 hLower).2)
    exact Nat.lt_of_le_of_lt hLast (by decide)

/-- Beyond ASCII, `İ` and the Kelvin sign alone are lower-cased into a letter of ASCII. -/
theorem ascii_or_of_mem_lowerAt {seen cs : List Char} {c d : Char} (hMem : d ∈ lowerAt seen c cs)
    (hAscii : d.toNat < 0x80) : c.toNat < 0x80 ∨ c = 'İ' ∨ c = '\u212a' := by
  by_cases hSigma : c = 'Σ'
  · subst hSigma
    have hAll : ['ς', 'σ'].all (fun d => decide (0x80 ≤ d.toNat)) = true := by decide
    have hPast := of_decide_eq_true (List.all_eq_true.1 hAll d (mem_of_mem_lowerAt_sigma hMem))
    omega
  · rw [lowerAt_of_ne hSigma, lowerChar] at hMem
    split at hMem
    next hHere => exact Or.inl hHere
    next hPast =>
      split at hMem
      next hDotted => exact Or.inr (Or.inl hDotted)
      next =>
        rw [List.mem_singleton.1 hMem, Runs.apply] at hAscii
        refine Or.inr (Or.inr (Classical.byContradiction fun hKelvin => ?_))
        have hCode : c.toNat ≠ 0x212a := by
          intro hCode
          apply hKelvin
          rw [← Char.ofNat_toNat c, hCode]
        have hTargets : ∀ run ∈ lowerRuns,
            0x80 ≤ run.2.2.2 ∨ run.1 = 0x212a ∧ run.2.1 = 0x212a := by
          decide +kernel
        have hImage : 0x80 ≤ lowerRuns.image c.toNat := by
          apply Runs.le_image (by omega)
          intro run hRun
          have hTarget := hTargets run hRun
          omega
        by_cases hMoved : lowerRuns.image c.toNat = c.toNat
        · rw [hMoved, Char.ofNat_toNat] at hAscii
          omega
        · rw [toNat_image_of_moved hMoved] at hAscii
          omega

end CompileHost.Text
