import CompileHost.Reference
import Mathlib.Data.List.TakeWhile

/-!
# How a reference is spelled

A property that refers to a file is a name, a colon, and the reference between two quotes, with
blanks on both sides of the colon.  No such character is one of a reference, so a spelling is read
the same way whatever follows it.

* `Spelling`: the parts of a property.
* `exists_spelling`, `Spelling.read?_append`: what is read is spelled so, and the other way round.
-/

namespace CompileHost

open Text

namespace Reference

variable {kind : ResourceKind} {c : Char} {cs rest value word : List Char}

/-! ## Words and gaps -/

/-- A character of a reference. -/
def isValueChar (c : Char) : Bool :=
  isFileNameChar c || c == '/'

/-- What may stand behind the name of a property. -/
def isGap (c : Char) : Bool :=
  isBlank c || c == ':'

theorem isValueChar_of_isBlank (hBlank : isBlank c = true) : isValueChar c = false := by
  have hCodes : ∀ n ∈ [0x9, 0xa, 0xb, 0xc, 0xd, 0x20, 0x85, 0xa0, 0x1680, 0x2000, 0x2001, 0x2002,
      0x2003, 0x2004, 0x2005, 0x2006, 0x2007, 0x2008, 0x2009, 0x200a, 0x2028, 0x2029, 0x202f,
      0x205f, 0x3000], isValueChar (Char.ofNat n) = false := by decide +kernel
  rw [← Char.ofNat_toNat c]
  apply hCodes
  simp only [isBlank, Bool.or_eq_true, Bool.and_eq_true, decide_eq_true_eq, beq_iff_eq] at hBlank
  simp only [List.mem_cons, List.not_mem_nil, or_false]
  omega

theorem isValueChar_of_isGap (hGap : isGap c = true) : isValueChar c = false := by
  rcases Bool.or_eq_true _ _ ▸ hGap with hBlank | hColon
  · exact isValueChar_of_isBlank hBlank
  · rw [beq_iff_eq.1 hColon]
    rfl

/-- A word ends where a character stands that is none of a reference. -/
theorem takeWhile_word (hWord : ∀ c ∈ word, isValueChar c = true) (hc : isValueChar c = false) :
    (word ++ c :: rest).takeWhile isValueChar = word := by
  rw [List.takeWhile_append_of_pos hWord, List.takeWhile_cons_of_neg (Bool.eq_false_iff.1 hc),
    List.append_nil]

theorem isValueChar_of_isQuote (hQuote : isQuote c = true) : isValueChar c = false := by
  rcases isQuote_iff.1 hQuote with rfl | rfl <;> rfl

theorem isGap_of_isQuote (hQuote : isQuote c = true) : isGap c = false := by
  rcases isQuote_iff.1 hQuote with rfl | rfl <;> rfl

theorem afterQuote?_eq_some_iff :
    afterQuote? cs = some rest ↔ ∃ q, isQuote q = true ∧ cs = q :: rest := by
  cases cs with
  | nil => simp [afterQuote?]
  | cons c cs =>
    simp only [afterQuote?, Option.ite_none_right_eq_some, Option.some.injEq, List.cons.injEq]
    constructor
    · rintro ⟨hQuote, rfl⟩
      exact ⟨c, hQuote, rfl, rfl⟩
    · rintro ⟨q, hQuote, rfl, rfl⟩
      exact ⟨hQuote, rfl⟩

/-! ## How a reference is spelled -/

/-- A property that refers to a file, with its blanks and its quotes. -/
structure Spelling (kind : ResourceKind) where
  before : List Char
  behind : List Char
  opening : Char
  value : List Char
  closing : Char
  before_blank : ∀ c ∈ before, isBlank c = true
  behind_blank : ∀ c ∈ behind, isBlank c = true
  opening_quote : isQuote opening = true
  closing_quote : isQuote closing = true
  value_chars : ∀ c ∈ value, isValueChar c = true
  refers : isReference kind value = true

namespace Spelling

def quoted (s : Spelling kind) : List Char :=
  s.opening :: (s.value ++ [s.closing])

def text (s : Spelling kind) : List Char :=
  kind.urlProperty.toList ++ (s.before ++ ':' :: (s.behind ++ s.quoted))

end Spelling

/-- Reads a reference and the quote behind it. -/
def readValue? (kind : ResourceKind) (cs : List Char) : Option (List Char × List Char) :=
  let value := cs.takeWhile isValueChar
  if isReference kind value then
    (afterQuote? (cs.drop value.length)).map fun rest => (value, rest)
  else none

theorem exists_of_readValue? (h : readValue? kind cs = some (value, rest)) :
    ∃ closing, isQuote closing = true ∧ isReference kind value = true ∧
      (∀ c ∈ value, isValueChar c = true) ∧ cs = value ++ closing :: rest := by
  obtain ⟨hRefers, h⟩ := Option.ite_none_right_eq_some.1 h
  obtain ⟨rest', hClose, hPair⟩ := Option.map_eq_some_iff.1 h
  obtain ⟨rfl, rfl⟩ := Prod.mk.inj hPair
  obtain ⟨closing, hClosing, hDrop⟩ := afterQuote?_eq_some_iff.1 hClose
  refine ⟨closing, hClosing, hRefers, fun c => List.mem_takeWhile_imp, ?_⟩
  have hPrefix := List.takeWhile_prefix isValueChar (l := cs)
  rw [← hDrop]
  exact List.prefix_iff_eq_append.1 hPrefix |>.symm

theorem read?_eq (kind : ResourceKind) (cs : List Char) :
    read? kind cs = (stripStart? kind.urlProperty.toList cs).bind fun cs =>
      match cs.dropWhile isBlank with
      | ':' :: cs => (afterQuote? (cs.dropWhile isBlank)).bind (readValue? kind)
      | _ => none :=
  rfl

/-- A spelling is read, whatever follows. -/
theorem Spelling.read?_append (s : Spelling kind) (rest : List Char) :
    read? kind (s.text ++ rest) = some (s.value, rest) := by
  have hStrip : stripStart? kind.urlProperty.toList (s.text ++ rest) =
      some (s.before ++ ':' :: (s.behind ++ s.opening :: (s.value ++ s.closing :: rest))) := by
    rw [stripStart?_eq_some_iff, text, quoted]
    simp only [List.append_assoc, List.cons_append, List.nil_append]
  have hColon : isBlank ':' = false := rfl
  have hOpening : isBlank s.opening = false := by
    have hNoGap := isGap_of_isQuote s.opening_quote
    exact (Bool.or_eq_false_iff.1 hNoGap).1
  have hValue : (s.value ++ s.closing :: rest).takeWhile isValueChar = s.value :=
    takeWhile_word s.value_chars (isValueChar_of_isQuote s.closing_quote)
  have hOpen : ∀ cs, afterQuote? (s.opening :: cs) = some cs := fun cs =>
    afterQuote?_eq_some_iff.2 ⟨s.opening, s.opening_quote, rfl⟩
  have hClose : afterQuote? (s.closing :: rest) = some rest :=
    afterQuote?_eq_some_iff.2 ⟨s.closing, s.closing_quote, rfl⟩
  rw [read?_eq, hStrip, Option.bind_some, List.dropWhile_append_of_pos s.before_blank,
    List.dropWhile_cons_of_neg (Bool.eq_false_iff.1 hColon)]
  change (afterQuote? (List.dropWhile isBlank
    (s.behind ++ s.opening :: (s.value ++ s.closing :: rest)))).bind (readValue? kind) = _
  rw [List.dropWhile_append_of_pos s.behind_blank,
    List.dropWhile_cons_of_neg (Bool.eq_false_iff.1 hOpening), hOpen, Option.bind_some, readValue?,
    hValue, if_pos s.refers, List.drop_left, hClose]
  rfl

/-- Nothing else is read. -/
theorem exists_spelling (h : read? kind cs = some (value, rest)) :
    ∃ s : Spelling kind, s.value = value ∧ cs = s.text ++ rest := by
  rw [read?_eq] at h
  obtain ⟨behindName, hStrip, h⟩ := Option.bind_eq_some_iff.1 h
  split at h
  next behindColon hColon =>
    obtain ⟨quoted, hOpen, h⟩ := Option.bind_eq_some_iff.1 h
    obtain ⟨opening, hOpening, hOpenText⟩ := afterQuote?_eq_some_iff.1 hOpen
    obtain ⟨closing, hClosing, hRefers, hChars, rfl⟩ := exists_of_readValue? h
    refine ⟨⟨behindName.takeWhile isBlank, behindColon.takeWhile isBlank, opening, value, closing,
      fun c => List.mem_takeWhile_imp, fun c => List.mem_takeWhile_imp, hOpening, hClosing,
      hChars, hRefers⟩, rfl, ?_⟩
    have hBehindColon := List.takeWhile_append_dropWhile (p := isBlank) (l := behindColon)
    have hBehindName := List.takeWhile_append_dropWhile (p := isBlank) (l := behindName)
    rw [hOpenText] at hBehindColon
    rw [hColon, ← hBehindColon] at hBehindName
    rw [stripStart?_eq_some_iff.1 hStrip, Spelling.text, Spelling.quoted]
    simp only [List.append_assoc, List.cons_append, List.nil_append]
    rw [hBehindName]
  next => cases h

end Reference

end CompileHost
