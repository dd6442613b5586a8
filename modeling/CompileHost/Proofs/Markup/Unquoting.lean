import CompileHost.Proofs.Markup.StartTag

/-!
# Tags whose values have lost their quotes

When quotes go that a value does not need, a tag mostly reads as before.  There are two ways in
which it does not.  A slash directly behind a value that has lost its quotes is read as part of the
value, and no longer closes the tag.  And a value may hold what looks like an attribute with a
value in quotes of the other kind, which then are lost from the value.

* `Attribute.LosesOuterQuotes`, `Attribute.LosesInnerQuotes`: what may happen to an attribute.
* `Unquoted.exists_attribute`: an attribute after that, by the rule for its places.
* `exists_read_attributes`: what a reader makes of a list of attributes.
* `reading_minify_iff`: the tags that read as before.
-/

namespace CompileHost.Markup

open Text

variable {surround before behind cs out part value rest front : List Char} {c q : Char}

/-! ## Parts of a text to which the rule is applied -/

theorem unquoted_nil (h : Unquoted surround before [] out) : out = [] := by
  generalize hText : [] = cs at h
  cases h with
  | done => rfl
  | copied => cases hText
  | dropped _ reads =>
    rw [← hText] at reads
    cases reads

theorem unquoted_cons (h : Unquoted surround before (c :: cs) out) :
    (¬ LosesQuotes surround before (c :: cs) ∧
        ∃ text, out = c :: text ∧ Unquoted surround (before ++ [c]) cs text) ∨
      LosesQuotes surround before (c :: cs) ∧ ∃ taken rest value text, c :: cs = taken ++ rest ∧
        assigned? (c :: cs) = some (value, rest) ∧ out = '=' :: value ++ text ∧
          Unquoted surround (before ++ taken) rest text := by
  generalize hText : c :: cs = whole at h
  cases h with
  | done => cases hText
  | copied keeps behind =>
    obtain ⟨rfl, rfl⟩ := List.cons.inj hText
    exact .inl ⟨keeps, _, rfl, behind⟩
  | dropped loses reads behind => exact .inr ⟨loses, _, _, _, _, rfl, reads, rfl, behind⟩

/-- Where no value is assigned, nothing happens. -/
theorem Unquoted.exists_append (h : Unquoted surround before (part ++ cs) out)
    (hPart : '=' ∉ part) :
    ∃ text, out = part ++ text ∧ Unquoted surround (before ++ part) cs text := by
  induction part generalizing before out with
  | nil => exact ⟨out, rfl, by simpa using h⟩
  | cons c part ih =>
    rw [List.mem_cons, not_or] at hPart
    rcases unquoted_cons h with ⟨-, text, rfl, hRest⟩ | ⟨hLoses, -⟩
    · obtain ⟨text, rfl, hBehind⟩ := ih hRest hPart.2
      exact ⟨text, rfl, by simpa using hBehind⟩
    · exact absurd (assigned?_cons_of_ne (Ne.symm hPart.1) _) hLoses.value

/-- Within quotes that are closed by `q`, an assignment ends before `q` does. -/
theorem assigned?_within {taken : List Char}
    (hRead : assigned? (taken ++ rest) = some (value, rest))
    (hText : part ++ q :: behind = taken ++ rest) (hQuote : isQuote q = true) (hPart : q ∉ part)
    (hBehind : assigned? ('=' :: q :: behind) = none) :
    ∃ later, part = taken ++ later ∧ rest = later ++ q :: behind := by
  obtain ⟨r, hOther, hPlain, hTaken⟩ := assigned?_eq_some_iff.1 hRead
  obtain rfl : taken = '=' :: r :: (value ++ [r]) :=
    List.append_cancel_right (hTaken.trans (by simp))
  rcases List.append_eq_append_iff.1 hText with ⟨more, hMore, hRest⟩ | ⟨later, rfl, hRest⟩
  · rcases List.cons_eq_append_iff.1 hRest with ⟨rfl, rfl⟩ | ⟨more, rfl, rfl⟩
    · exact ⟨[], by rw [hMore, List.append_nil, List.append_nil], rfl⟩
    · -- the assignment would have to hold the quote `q`
      rcases part with _ | ⟨d, _ | ⟨e, part⟩⟩
      · obtain rfl : '=' = q := (List.cons.inj hMore).1
        cases hQuote
      · obtain ⟨-, hTail⟩ := List.cons.inj hMore
        obtain ⟨rfl, rfl⟩ := List.cons.inj hTail
        have hNone : assigned? ('=' :: r :: (value ++ [r]) ++ rest) = none := hBehind
        rw [hNone] at hRead
        cases hRead
      · obtain ⟨-, hTail⟩ := List.cons.inj hMore
        obtain ⟨hSame, hEnd⟩ := List.cons.inj hTail
        have hMem : q ∈ value ++ [r] := by
          rw [hEnd]
          exact List.mem_append_right part List.mem_cons_self
        rcases List.mem_append.1 hMem with hMem | hMem
        · exact absurd hMem (hPlain.quote_notMem hQuote)
        · exact absurd (by simp [List.mem_singleton.1 hMem, hSame]) hPart
  · exact ⟨later, rfl, hRest⟩

/-- Between two quotes, the text shrinks if quotes go from it, and else stays as it is. -/
theorem Unquoted.exists_value (h : Unquoted surround before (value ++ q :: behind) out)
    (hQuote : isQuote q = true) (hValue : q ∉ value) (hBehind : assigned? ('=' :: q :: behind) = none) :
    ∃ shrunk text, out = shrunk ++ q :: text ∧ q ∉ shrunk ∧ shrunk.length ≤ value.length ∧
      Unquoted surround (before ++ value ++ [q]) behind text ∧
        (shrunk = value ↔ ∀ inner later, value = inner ++ later →
          ¬ LosesQuotes surround (before ++ inner) (later ++ q :: behind)) := by
  induction hLength : value.length using Nat.strongRecOn generalizing before value out with
  | ind length ih =>
    subst hLength
    rcases value with _ | ⟨c, value⟩
    · rcases unquoted_cons h with ⟨hKeeps, text, rfl, hRest⟩ | ⟨hLoses, -⟩
      · refine ⟨[], text, rfl, hValue, Nat.le_refl _, by simpa using hRest, iff_of_true rfl ?_⟩
        intro inner later hText
        obtain ⟨rfl, rfl⟩ := List.append_eq_nil_iff.1 hText.symm
        simpa using hKeeps
      · refine absurd (assigned?_cons_of_ne ?_ _) hLoses.value
        rintro rfl
        cases hQuote
    · rcases unquoted_cons h with ⟨hKeeps, text, rfl, hRest⟩ | ⟨hLoses, taken, rest, bare, text, hText,
        hRead, rfl, hRest⟩
      · rw [List.mem_cons, not_or] at hValue
        obtain ⟨shrunk, text, rfl, hShrunk, hSize, hRest, hSame⟩ :=
          ih value.length (Nat.lt_succ_self _) hRest hValue.2 rfl
        refine ⟨c :: shrunk, text, rfl, by simp [hValue.1, hShrunk], Nat.succ_le_succ hSize,
          by simpa using hRest, ?_⟩
        rw [List.cons_inj_right, hSame]
        constructor
        · rintro hInner inner later hSplit
          rcases List.cons_eq_append_iff.1 hSplit with ⟨rfl, rfl⟩ | ⟨inner, rfl, rfl⟩
          · simpa using hKeeps
          · simpa using hInner inner later rfl
        · rintro hInner inner later rfl
          simpa using hInner (c :: inner) later rfl
      · rw [hText] at hRead
        obtain ⟨later, hParts, rfl⟩ := assigned?_within hRead hText hQuote hValue hBehind
        obtain ⟨r, -, -, hTaken⟩ := assigned?_eq_some_iff.1 hRead
        obtain rfl : taken = '=' :: r :: (bare ++ [r]) :=
          List.append_cancel_right (hTaken.trans (by simp))
        have hLess : later.length < (c :: value).length := by
          rw [hParts, List.length_append]
          exact Nat.lt_add_of_pos_left (Nat.succ_pos _)
        change LosesQuotes surround before ((c :: value) ++ q :: behind) at hLoses
        rw [hParts] at hValue hLoses ⊢
        have hLater : q ∉ later := fun hMem => hValue (List.mem_append_right _ hMem)
        obtain ⟨shrunk, text, rfl, hShrunk, hSize, hRest, -⟩ :=
          ih later.length hLess hRest hLater rfl
        refine ⟨'=' :: bare ++ shrunk, text, by simp, ?_, ?_, by simpa using hRest, ?_⟩
        · simp only [List.cons_append, List.mem_cons, List.mem_append, not_or] at hValue ⊢
          exact ⟨hValue.1, hValue.2.2.1.1, hShrunk⟩
        · simp
          omega
        · refine iff_of_false (fun hSame => ?_) fun hKeeps => ?_
          · have hLengths := congrArg List.length hSame
            simp only [List.length_append, List.length_cons, List.length_nil] at hLengths
            omega
          · exact hKeeps [] _ rfl (by simpa using hLoses)

/-! ## Attributes -/

namespace Attribute

/-- Between the texts `before` and `behind`, the quotes around the value go. -/
def LosesOuterQuotes (a : Attribute) (surround before behind : List Char) : Prop :=
  LosesQuotes surround (before ++ a.opening)
    ('=' :: (a.spaceBehind ++ a.quote :: (a.value ++ a.quote :: behind)))

/-- Between the texts `before` and `behind`, quotes go that are part of the value. -/
def LosesInnerQuotes (a : Attribute) (surround before behind : List Char) : Prop :=
  ∃ inner later, a.value = inner ++ later ∧
    LosesQuotes surround (before ++ a.opening ++ '=' :: (a.spaceBehind ++ a.quote :: inner))
      (later ++ a.quote :: behind)

theorem equals_notMem_opening (a : Attribute) : '=' ∉ a.opening := by
  have hBlank := a.isBlank_of_mem
  rw [List.forall_mem_append, List.forall_mem_append] at hBlank
  rw [opening, List.mem_append, List.mem_append, not_or, not_or]
  have hEquals : ¬ isBlank '=' = true := by decide
  refine ⟨⟨fun hMem => hEquals (hBlank.1.1 _ hMem), fun hMem => ?_⟩,
    fun hMem => hEquals (hBlank.1.2 _ hMem)⟩
  exact (not_of_isNameChar (a.isNameChar_of_mem _ hMem)).2.2.1 rfl

theorem equals_notMem_spaceBehind (a : Attribute) : '=' ∉ a.spaceBehind ++ [a.quote] := by
  rw [List.mem_append, List.mem_singleton, not_or]
  refine ⟨fun hMem => ?_, fun hEquals => ?_⟩
  · have hBlank := a.isBlank_of_mem _ (List.mem_append_right _ hMem)
    cases hBlank
  · have hQuote := a.isQuote_quote
    rw [← hEquals] at hQuote
    cases hQuote

theorem text_append (a : Attribute) (behind : List Char) :
    a.text ++ behind =
      a.opening ++ '=' :: (a.spaceBehind ++ a.quote :: (a.value ++ a.quote :: behind)) := by
  simp [text]

/-- The assignment of an attribute, if it is read as one of a plain value. -/
theorem eq_of_assigned? (a : Attribute) (h : assigned?
      ('=' :: (a.spaceBehind ++ a.quote :: (a.value ++ a.quote :: behind))) = some (value, rest)) :
    value = a.value ∧ rest = behind ∧ a.spaceBehind = [] ∧ IsPlainValue a.value := by
  obtain ⟨q, hQuote, hPlain, hText⟩ := assigned?_eq_some_iff.1 h
  obtain ⟨-, hText⟩ := List.cons.inj hText
  cases hSpace : a.spaceBehind with
  | nil =>
    rw [hSpace] at hText
    obtain ⟨rfl, hText⟩ := List.cons.inj hText
    obtain ⟨hSame, rfl⟩ :=
      (append_cons_inj_of_first a.quote_notMem (hPlain.quote_notMem hQuote)).1 hText
    exact ⟨hSame.symm, rfl, rfl, by rwa [hSame]⟩
  | cons c space =>
    rw [hSpace] at hText
    have hBlank := a.isBlank_of_mem c (by simp [hSpace])
    rw [(List.cons.inj hText).1, isBlank_of_isQuote hQuote] at hBlank
    cases hBlank

/-- A plain value has no quotes to lose. -/
theorem not_losesInnerQuotes (a : Attribute) (h : IsPlainValue a.value) :
    ¬ a.LosesInnerQuotes surround before behind := by
  rintro ⟨inner, later, hValue, hLoses⟩
  cases later with
  | nil =>
    refine hLoses.value (assigned?_cons_of_ne ?_ _)
    intro hEquals
    have hQuote := a.isQuote_quote
    rw [hEquals] at hQuote
    cases hQuote
  | cons c later =>
    have hPlain := h.2 c (by simp [hValue])
    exact hLoses.value (assigned?_cons_of_ne (not_of_isPlainValueChar hPlain).2.2.1 _)

end Attribute

/-- An attribute behind which no value begins: it loses the quotes around its value and else stays
as it is, or it keeps them and loses at most some within the value. -/
theorem Unquoted.exists_attribute (a : Attribute)
    (h : Unquoted surround before (a.text ++ behind) out)
    (hBehind : assigned? ('=' :: a.quote :: behind) = none) :
    ∃ text, Unquoted surround (before ++ a.text) behind text ∧
      (a.LosesOuterQuotes surround before behind ∧ IsPlainValue a.value ∧
          out = a.opening ++ '=' :: a.value ++ text ∨
        ¬ a.LosesOuterQuotes surround before behind ∧ ∃ value, a.quote ∉ value ∧
          (value = a.value ↔ ¬ a.LosesInnerQuotes surround before behind) ∧
            out = a.opening ++ '=' :: (a.spaceBehind ++ a.quote :: (value ++ [a.quote])) ++ text) := by
  rw [a.text_append] at h
  obtain ⟨out, rfl, hAssigned⟩ := h.exists_append a.equals_notMem_opening
  rcases unquoted_cons hAssigned with ⟨hKeeps, out, rfl, hRest⟩ | ⟨hLoses, taken, rest, value, text,
    hTaken, hRead, rfl, hRest⟩
  · rw [List.append_cons a.spaceBehind] at hRest
    obtain ⟨out, rfl, hValue⟩ := hRest.exists_append a.equals_notMem_spaceBehind
    obtain ⟨value, text, rfl, hClosed, -, hText, hSame⟩ :=
      hValue.exists_value a.isQuote_quote a.quote_notMem hBehind
    refine ⟨text, by simpa [Attribute.text] using hText,
      .inr ⟨hKeeps, value, hClosed, hSame.trans ?_, by simp⟩⟩
    rw [Attribute.LosesInnerQuotes]
    push Not
    simp
  · obtain ⟨rfl, rfl, hSpace, hPlain⟩ := a.eq_of_assigned? hRead
    refine ⟨text, ?_, .inl ⟨hLoses, hPlain, by simp⟩⟩
    have hText : a.text = a.opening ++ taken := by
      have hWhole : a.text ++ rest = a.opening ++ taken ++ rest := by
        rw [a.text_append, hTaken, List.append_assoc]
      exact List.append_cancel_right hWhole
    rwa [hText, ← List.append_assoc]

/-! ## Tags -/

theorem StartTag.equals_notMem_ending (t : StartTag) : '=' ∉ t.ending := by
  rw [StartTag.ending, List.mem_append, not_or]
  refine ⟨fun hMem => ?_, by cases t.selfClosing <;> simp⟩
  have hBlank := t.isBlank_of_mem _ hMem
  cases hBlank

theorem StartTag.equals_notMem_start (t : StartTag) : '=' ∉ '<' :: t.name := by
  rw [List.mem_cons, not_or]
  refine ⟨by decide, fun hMem => ?_⟩
  exact (not_of_isNameChar (t.isNameChar_of_mem _ hMem)).2.2.1 rfl

/-- Behind an attribute stands white space, or the tag ends. -/
theorem behind_cases (attributes : List Attribute) (t : StartTag) :
    (∃ c rest, attributes.flatMap Attribute.text ++ t.ending = c :: rest ∧
        (isBlank c = true ∨ c = '>')) ∨
      attributes = [] ∧ t.ending = ['/', '>'] := by
  cases attributes with
  | cons a attributes =>
    obtain ⟨c, margin, hMargin⟩ := List.exists_cons_of_ne_nil a.margin_ne_nil
    have hBlank := a.isBlank_of_mem c (by simp [hMargin])
    rw [List.flatMap_cons, Attribute.text, Attribute.opening, hMargin]
    exact .inl ⟨c, _, rfl, .inl hBlank⟩
  | nil =>
    rw [List.flatMap_nil, List.nil_append, StartTag.ending]
    cases hMargin : t.margin with
    | cons c margin => exact .inl ⟨c, _, rfl, .inl (t.isBlank_of_mem c (by simp [hMargin]))⟩
    | nil =>
      cases t.selfClosing with
      | false => exact .inl ⟨'>', [], rfl, .inr rfl⟩
      | true => exact .inr ⟨rfl, rfl⟩

/-- Behind an attribute no value begins with the quote that ends its own. -/
theorem assigned?_quote_behind (attributes : List Attribute) (t : StartTag) (q : Char) :
    assigned? ('=' :: q :: (attributes.flatMap Attribute.text ++ t.ending)) = none := by
  rw [Option.eq_none_iff_forall_ne_some]
  rintro ⟨value, rest⟩ hRead
  obtain ⟨r, hQuote, ⟨hNonempty, hPlain⟩, hText⟩ := assigned?_eq_some_iff.1 hRead
  obtain ⟨-, hText⟩ := List.cons.inj (List.cons.inj hText).2
  obtain ⟨d, value, rfl⟩ := List.exists_cons_of_ne_nil hNonempty
  rw [List.forall_mem_cons] at hPlain
  rcases behind_cases attributes t with ⟨c, later, hLater, hc⟩ | ⟨rfl, hEnding⟩
  · obtain ⟨hBlank, -, -, hClose⟩ := not_of_isPlainValueChar hPlain.1
    rw [hLater] at hText
    obtain ⟨rfl, -⟩ := List.cons.inj hText
    rw [hBlank] at hc
    exact hc.elim Bool.false_ne_true hClose
  · -- the value would be the slash, or go on with the bracket
    rw [List.flatMap_nil, List.nil_append, hEnding] at hText
    obtain ⟨-, hText⟩ := List.cons.inj hText
    cases value with
    | nil =>
      rw [← (List.cons.inj hText).1] at hQuote
      cases hQuote
    | cons e value =>
      obtain ⟨-, -, -, hClose⟩ := not_of_isPlainValueChar (hPlain.2 e List.mem_cons_self)
      exact hClose (List.cons.inj hText).1.symm

theorem eq_nil_of_behind {attributes : List Attribute} {t : StartTag}
    (h : attributes.flatMap Attribute.text ++ t.ending = ['/', '>']) :
    attributes = [] ∧ t.ending = ['/', '>'] := by
  rcases behind_cases attributes t with ⟨c, rest, hText, hc⟩ | hEnd
  · rw [h] at hText
    obtain ⟨rfl, -⟩ := List.cons.inj hText
    rcases hc with hc | hc <;> cases hc
  · exact hEnd

theorem forall_eq_append_cons_iff {α : Type} {x : α} {xs : List α}
    {P : List α → α → List α → Prop} :
    (∀ front y back, x :: xs = front ++ y :: back → P front y back) ↔
      P [] x xs ∧ ∀ front y back, xs = front ++ y :: back → P (x :: front) y back := by
  constructor
  · intro h
    exact ⟨h [] x xs rfl, fun front y back hParts => h (x :: front) y back (by simp [hParts])⟩
  · rintro ⟨hHead, hTail⟩ front y back hParts
    rcases List.cons_eq_append_iff.1 hParts with ⟨rfl, hBack⟩ | ⟨front, rfl, rfl⟩
    · obtain ⟨rfl, rfl⟩ := List.cons.inj hBack
      exact hHead
    · exact hTail front y back rfl

/-- A reader gets through the attributes, and reads a value differently exactly if it has lost
quotes.  Behind them it is in a value without quotes exactly if the last one has lost its own. -/
theorem exists_read_attributes (t : StartTag) {r : Reader} {tag : List Char}
    {done : List (List Char × List Char)} (attributes : List Attribute)
    (h : Unquoted surround before (attributes.flatMap Attribute.text ++ t.ending) out)
    (hSettled : r.Settled tag done) :
    ∃ (values : List (List Char × List Char)) (s : Reader),
      r.read out = s.read t.ending ∧ s.Settled tag (done ++ values) ∧
      (values = attributes.map Attribute.reading ↔
        ∀ front a back, attributes = front ++ a :: back →
          ¬ a.LosesInnerQuotes surround (before ++ front.flatMap Attribute.text)
            (back.flatMap Attribute.text ++ t.ending)) ∧
      (s.inPlain = false ↔ (attributes = [] → r.inPlain = false) ∧
        ∀ front a back, attributes = front ++ a :: back → back = [] →
          ¬ a.LosesOuterQuotes surround (before ++ front.flatMap Attribute.text)
            (back.flatMap Attribute.text ++ t.ending)) := by
  induction attributes generalizing before out r done with
  | nil =>
    rw [List.flatMap_nil, List.nil_append, ← List.append_nil t.ending] at h
    obtain ⟨text, rfl, hNil⟩ := h.exists_append t.equals_notMem_ending
    rw [unquoted_nil hNil, List.append_nil]
    refine ⟨[], r, rfl, by rwa [List.append_nil], iff_of_true rfl (by simp), by simp⟩
  | cons a attributes ih =>
    rw [List.flatMap_cons, List.append_assoc] at h
    simp only [forall_eq_append_cons_iff, List.map_cons, List.flatMap_nil, List.append_nil,
      List.flatMap_cons, ← List.append_assoc before]
    obtain ⟨text, hText, ⟨hLoses, hPlain, rfl⟩ | ⟨hKeeps, value, hClosed, hSame, rfl⟩⟩ :=
      h.exists_attribute a (assigned?_quote_behind attributes t a.quote)
    · have hRead := hSettled.read_bareAttribute a hPlain
      obtain ⟨values, s, hRest, hEnd, hValues, hLast⟩ := ih hText (.plain tag done a.name a.value)
      refine ⟨a.reading :: values, s, ?_, by simpa [Attribute.reading] using hEnd, ?_, ?_⟩
      · rw [Reader.read_append, hRead, hRest]
      · rw [List.cons_inj_right, hValues, and_iff_right (a.not_losesInnerQuotes hPlain)]
      · rw [hLast]
        simp [Reader.inPlain, hLoses]
    · have hRead := hSettled.read_attribute a hClosed
      obtain ⟨values, s, hRest, hEnd, hValues, hLast⟩ :=
        ih hText (.gap tag (done ++ [(a.name, value)]))
      refine ⟨(a.name, value) :: values, s, ?_, by simpa using hEnd, ?_, ?_⟩
      · rw [Reader.read_append, hRead, hRest]
      · rw [List.cons.injEq, hValues, ← hSame, Attribute.reading, Prod.mk.injEq, eq_self,
          true_and]
      · rw [hLast]
        simp [Reader.inPlain, hKeeps]

/-! ## Minified tags -/

/-- The options by which nothing is done but to strip quotes. -/
def strippingQuotes (surround : List String) : Options where
  removeComments := false
  useShortDoctype := false
  removeOptionalTags := false
  collapseWhitespace := false
  removeEmptyAttributes := false
  collapseBooleanAttributes := false
  customAttrSurround := surround

/-- **Tags that read as before.**  When quotes are stripped from a tag, a reader gets from it what
it got before exactly if no value loses quotes that are part of it, and no value that loses its own
has a slash directly behind it. -/
theorem reading_minify_iff (surround : List String) (tag : StartTag) :
    readTag? (minify (strippingQuotes surround) tag.text).toList = readTag? tag.text.toList ↔
      ∀ front a back, tag.attributes = front ++ a :: back →
        let before := '<' :: tag.name ++ front.flatMap Attribute.text
        let behind := back.flatMap Attribute.text ++ tag.ending
        ¬ a.LosesInnerQuotes (surround.flatMap String.toList) before behind ∧
          (behind = ['/', '>'] →
            ¬ a.LosesOuterQuotes (surround.flatMap String.toList) before behind) := by
  have hUnquoted := unquoted_removeQuotes surround
    ('<' :: tag.name ++ (tag.attributes.flatMap Attribute.text ++ tag.ending))
  have hText : (minify (strippingQuotes surround) tag.text).toList = removeQuotes surround
      ('<' :: tag.name ++ (tag.attributes.flatMap Attribute.text ++ tag.ending)) := by
    rw [minify, String.toList_ofList, StartTag.text, String.toList_ofList]
    rfl
  obtain ⟨out, hOut, hBehind⟩ := hUnquoted.exists_append tag.equals_notMem_start
  have hStart : Reader.read {} ('<' :: tag.name) = ⟨tag.name, [], .tagName⟩ :=
    Reader.read_tagName tag.isNameChar_of_mem
  obtain ⟨values, s, hRead, hSettled, hValues, hLast⟩ :=
    exists_read_attributes tag tag.attributes hBehind (.tagName tag.name)
  rw [readTag?_text, hText, hOut, readTag?, Reader.read_append, hStart, hRead, StartTag.reading,
    hSettled.answer?_ending, List.nil_append, hValues, hLast]
  constructor
  · rintro ⟨hInner, hOuter⟩ front a back hParts
    refine ⟨hInner front a back hParts, fun hBehind => ?_⟩
    obtain ⟨rfl, hEnding⟩ := eq_nil_of_behind hBehind
    exact (hOuter hEnding).2 front a [] hParts rfl
  · intro h
    refine ⟨fun front a back hParts => (h front a back hParts).1, fun hEnding => ⟨fun _ => rfl, ?_⟩⟩
    rintro front a back hParts rfl
    exact (h front a [] hParts).2 hEnding

/-- The attribute `x="b"` behind a space. -/
def spacedAttribute : Attribute where
  margin := [' ']
  name := ['x']
  spaceBefore := []
  spaceBehind := []
  quote := '"'
  value := ['b']
  margin_ne_nil := List.cons_ne_nil _ _
  isBlank_of_mem := List.forall_mem_singleton.2 rfl
  name_ne_nil := List.cons_ne_nil _ _
  isNameChar_of_mem := List.forall_mem_singleton.2 rfl
  isQuote_quote := rfl
  quote_notMem := mt List.mem_singleton.1 (ne_of_beq_false rfl)

/-- A tag with this attribute that closes itself. -/
def closedTag (margin : List Char) (hMargin : ∀ c ∈ margin, isBlank c = true) : StartTag where
  name := ['a']
  attributes := [spacedAttribute]
  margin
  selfClosing := true
  isNameChar_of_mem := List.forall_mem_singleton.2 rfl
  isBlank_of_mem := hMargin

/-- The slash that closes a tag, directly behind a value and with a space in between. -/
theorem reading_minify_closedTag :
    let options := strippingQuotes ["@", ":"]
    let joined := closedTag [] (List.forall_mem_nil _)
    let spaced := closedTag [' '] (List.forall_mem_singleton.2 rfl)
    joined.text = "<a x=\"b\"/>" ∧ spaced.text = "<a x=\"b\" />" ∧
      readTag? (minify options joined.text).toList ≠ readTag? joined.text.toList ∧
        readTag? (minify options spaced.text).toList = readTag? spaced.text.toList := by
  have hPlain : IsPlainValue ['b'] := ⟨by decide, List.forall_mem_singleton.2 rfl⟩
  have hLoses : spacedAttribute.LosesOuterQuotes ['@', ':'] ['<', 'a'] ['/', '>'] := by
    have hName : IsName ['@', ':'] [' ', 'x'] := ⟨' ', 'x', [], rfl, rfl, rfl, by simp⟩
    refine ⟨⟨['<', 'a'], [' ', 'x'], rfl, hName⟩, by decide +kernel, ?_⟩
    rintro ⟨more, later, hText, hMore, hNames, -⟩
    obtain ⟨c, more, rfl⟩ := List.exists_cons_of_ne_nil hMore
    have hEquals := hNames c List.mem_cons_self
    rw [← (List.cons.inj hText).1] at hEquals
    revert hEquals
    decide +kernel
  refine ⟨by decide +kernel, by decide +kernel, fun hSame => ?_, ?_⟩
  · exact ((reading_minify_iff ["@", ":"] (closedTag [] (List.forall_mem_nil _))).1 hSame [] _ [] rfl).2 rfl
      hLoses
  · refine (reading_minify_iff ["@", ":"] (closedTag [' '] _)).2 ?_
    refine forall_eq_append_cons_iff.2 ⟨?_, fun front a back hParts => absurd hParts (by simp)⟩
    refine ⟨spacedAttribute.not_losesInnerQuotes hPlain, fun hBehind => ?_⟩
    cases hBehind

/-- A slash directly behind a value. -/
theorem slash_joins_value :
    let text := "<a x=\"b\"/>"
    readTag? text.toList = some ⟨['a'], [(['x'], ['b'])], true⟩ ∧
      readTag? (minify (strippingQuotes ["@", ":"]) text).toList =
        some ⟨['a'], [(['x'], ['b', '/'])], false⟩ := by
  decide +kernel

end CompileHost.Markup
