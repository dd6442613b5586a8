/-!
# White space and quotes

The white space of texts and of patterns: the characters with the Unicode property of that name.
HTML knows fewer, and `isLineBlank` only the two that may stand inside a line of directives.
Conditions, references and attributes put their values between quotes of two kinds.
-/

namespace CompileHost.Text

/-- White space of any kind, the no-break and the ideographic space among it. -/
def isBlank (c : Char) : Bool :=
  let n := c.toNat
  (9 ≤ n && n ≤ 13) || n == 0x20 || n == 0x85 || n == 0xA0 || n == 0x1680 ||
    (0x2000 ≤ n && n ≤ 0x200A) || n == 0x2028 || n == 0x2029 || n == 0x202F || n == 0x205F ||
    n == 0x3000

theorem isBlank_of_between {c : Char} {first last : UInt32} (hFirst : first ≤ c.val)
    (hLast : c.val ≤ last) (hZero : '0'.toNat ≤ first.toNat) (hZ : last.toNat ≤ 'z'.toNat) :
    isBlank c = false := by
  have hLow : 48 ≤ c.toNat := Nat.le_trans hZero (UInt32.le_iff_toNat_le.1 hFirst)
  have hHigh : c.toNat ≤ 122 := Nat.le_trans (UInt32.le_iff_toNat_le.1 hLast) hZ
  simp [isBlank]
  omega

/-- No letter or digit of ASCII is white space. -/
theorem isBlank_of_isAlphanum {c : Char} (h : c.isAlphanum = true) : isBlank c = false := by
  rcases Bool.or_eq_true_iff.1 h with hLetter | hDigit
  · rcases Bool.or_eq_true_iff.1 hLetter with hUpper | hLower
    · obtain ⟨hFirst, hLast⟩ := of_decide_eq_true hUpper
      exact isBlank_of_between hFirst hLast (by decide) (by decide)
    · obtain ⟨hFirst, hLast⟩ := Bool.and_eq_true_iff.1 hLower
      exact isBlank_of_between (of_decide_eq_true hFirst) (of_decide_eq_true hLast) (by decide)
        (by decide)
  · obtain ⟨hFirst, hLast⟩ := Bool.and_eq_true_iff.1 hDigit
    exact isBlank_of_between (of_decide_eq_true hFirst) (of_decide_eq_true hLast) (by decide)
      (by decide)

/-- A space or a tab. -/
def isLineBlank (c : Char) : Bool :=
  c == ' ' || c == '\t'

/-- A quote that a value may stand between. -/
def isQuote (c : Char) : Bool :=
  c == '"' || c == '\''

theorem isQuote_iff {c : Char} : isQuote c = true ↔ c = '"' ∨ c = '\'' := by
  rw [isQuote, Bool.or_eq_true, beq_iff_eq, beq_iff_eq]

theorem isBlank_of_isQuote {c : Char} (h : isQuote c = true) : isBlank c = false := by
  rcases isQuote_iff.1 h with rfl | rfl <;> rfl

/-- Drops the longest tail of which every character satisfies `p`. -/
def dropEndWhile (p : Char → Bool) (cs : List Char) : List Char :=
  (cs.reverse.dropWhile p).reverse

/-- Drops at both ends what satisfies `p`. -/
def stripBoth (p : Char → Bool) (cs : List Char) : List Char :=
  dropEndWhile p (cs.dropWhile p)

/-- Without the white space at both ends. -/
def trim (cs : List Char) : List Char :=
  stripBoth isBlank cs

/-- Without the white space at the end. -/
def trimEnd (cs : List Char) : List Char :=
  dropEndWhile isBlank cs

end CompileHost.Text
