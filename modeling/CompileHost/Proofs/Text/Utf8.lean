import CompileHost.Proofs.Path.Parts
import CompileHost.Text.Utf8
import Mathlib.Data.List.Basic

/-!
# Texts and their bytes

A text is read back from its bytes, and no byte of a character beyond ASCII is an ASCII character.
So a text may be looked through byte by byte for an ASCII character, and cut at it.

* `decodeLossy_utf8Bytes`: the text of the bytes of a text.
* `mem_utf8Bytes_iff`: ASCII characters among bytes.
* `splitAt_utf8Bytes`: bytes are cut where the text is cut.
-/

namespace CompileHost.Text

/-! ## The bytes of a character -/

theorem toNat_ofNat_of_lt {n : Nat} (h : n < 256) : (UInt8.ofNat n).toNat = n := by
  rw [UInt8.toNat_ofNat', Nat.mod_eq_of_lt h]

theorem utf8EncodeChar_eq (c : Char) :
    String.utf8EncodeChar c =
      if c.toNat ≤ 0x7F then [UInt8.ofNat c.toNat]
      else if c.toNat ≤ 0x7FF then
        [UInt8.ofNat (c.toNat / 64 % 32 + 192), UInt8.ofNat (c.toNat % 64 + 128)]
      else if c.toNat ≤ 0xFFFF then
        [UInt8.ofNat (c.toNat / 4096 % 16 + 224), UInt8.ofNat (c.toNat / 64 % 64 + 128),
          UInt8.ofNat (c.toNat % 64 + 128)]
      else
        [UInt8.ofNat (c.toNat / 262144 % 8 + 240), UInt8.ofNat (c.toNat / 4096 % 64 + 128),
          UInt8.ofNat (c.toNat / 64 % 64 + 128), UInt8.ofNat (c.toNat % 64 + 128)] :=
  rfl

theorem utf8EncodeChar_ascii {c : Char} (h : c.toNat < 128) :
    String.utf8EncodeChar c = [UInt8.ofNat c.toNat] := by
  rw [utf8EncodeChar_eq, if_pos (Nat.le_of_lt_succ h)]

theorem le_of_mem_utf8EncodeChar {c : Char} (h : 128 ≤ c.toNat) {b : UInt8}
    (hb : b ∈ String.utf8EncodeChar c) : 128 ≤ b.toNat := by
  have hByte {n : Nat} (hLow : 128 ≤ n) (hHigh : n < 256) : 128 ≤ (UInt8.ofNat n).toNat := by
    rwa [toNat_ofNat_of_lt hHigh]
  rw [utf8EncodeChar_eq, if_neg (by omega)] at hb
  split at hb
  · simp only [List.mem_cons, List.not_mem_nil, or_false] at hb
    rcases hb with rfl | rfl <;> exact hByte (by omega) (by omega)
  · split at hb
    · simp only [List.mem_cons, List.not_mem_nil, or_false] at hb
      rcases hb with rfl | rfl | rfl <;> exact hByte (by omega) (by omega)
    · simp only [List.mem_cons, List.not_mem_nil, or_false] at hb
      rcases hb with rfl | rfl | rfl | rfl <;> exact hByte (by omega) (by omega)

/-! ## Reading a character back -/

/-- One more byte of a character. -/
theorem continuation_cons {value n d : Nat} {low high : UInt8} (hd : d < 64)
    (hLow : low.toNat ≤ d + 128) (hHigh : d + 128 ≤ high.toNat) (bs : List UInt8) :
    continuation value low high (n + 1) (UInt8.ofNat (d + 128) :: bs) =
      ((continuation (value * 64 + d) 0x80 0xBF n bs).1 + 1,
        (continuation (value * 64 + d) 0x80 0xBF n bs).2) := by
  have hByte : (UInt8.ofNat (d + 128)).toNat = d + 128 := toNat_ofNat_of_lt (by omega)
  have hWithin : low ≤ UInt8.ofNat (d + 128) ∧ UInt8.ofNat (d + 128) ≤ high := by
    rw [UInt8.le_iff_toNat_le, UInt8.le_iff_toNat_le, hByte]
    exact ⟨hLow, hHigh⟩
  have hValue : (UInt8.ofNat (d + 128)).toNat - 0x80 = d := by
    rw [hByte, Nat.add_sub_cancel]
  rw [continuation, if_pos hWithin, hValue]

/-- Behind the second byte of a character any byte goes on with it that can. -/
theorem continuation_tail {value n d : Nat} (hd : d < 64) (bs : List UInt8) :
    continuation value 0x80 0xBF (n + 1) (UInt8.ofNat (d + 128) :: bs) =
      ((continuation (value * 64 + d) 0x80 0xBF n bs).1 + 1,
        (continuation (value * 64 + d) 0x80 0xBF n bs).2) := by
  have hLow : (0x80 : UInt8).toNat ≤ d + 128 := Nat.le_add_left 128 d
  have hHigh : d + 128 ≤ (0xBF : UInt8).toNat := Nat.add_le_add_right (Nat.le_of_lt_succ hd) 128
  exact continuation_cons hd hLow hHigh bs

theorem firstChar_of_lead {b : UInt8} {lead : Lead} (hLead : Lead.of? b = some lead)
    (hHigh : ¬ b < 0x80) (bs : List UInt8) :
    firstChar b bs =
      ((continuation lead.bits lead.low lead.high lead.following bs).2.map Char.ofNat,
        (continuation lead.bits lead.low lead.high lead.following bs).1) := by
  rw [firstChar, if_neg hHigh, hLead]

theorem of?_two {a : Nat} (hLow : 2 ≤ a) (hHigh : a < 32) :
    Lead.of? (UInt8.ofNat (a + 192)) = some { following := 1, bits := a } ∧
      ¬ UInt8.ofNat (a + 192) < 0x80 := by
  have hAll : ∀ a < 32, 2 ≤ a →
      Lead.of? (UInt8.ofNat (a + 192)) = some { following := 1, bits := a } ∧
        ¬ UInt8.ofNat (a + 192) < 0x80 := by
    decide
  exact hAll a hHigh hLow

theorem of?_three {a : Nat} (ha : a < 16) :
    Lead.of? (UInt8.ofNat (a + 224)) = some {
        following := 2
        low := if a = 0 then 0xA0 else 0x80
        high := if a = 13 then 0x9F else 0xBF
        bits := a } ∧
      ¬ UInt8.ofNat (a + 224) < 0x80 := by
  have hAll : ∀ a < 16,
      Lead.of? (UInt8.ofNat (a + 224)) = some {
          following := 2
          low := if a = 0 then 0xA0 else 0x80
          high := if a = 13 then 0x9F else 0xBF
          bits := a } ∧
        ¬ UInt8.ofNat (a + 224) < 0x80 := by
    decide
  exact hAll a ha

theorem of?_four {a : Nat} (ha : a < 5) :
    Lead.of? (UInt8.ofNat (a + 240)) = some {
        following := 3
        low := if a = 0 then 0x90 else 0x80
        high := if a = 4 then 0x8F else 0xBF
        bits := a } ∧
      ¬ UInt8.ofNat (a + 240) < 0x80 := by
  have hAll : ∀ a < 5,
      Lead.of? (UInt8.ofNat (a + 240)) = some {
          following := 3
          low := if a = 0 then 0x90 else 0x80
          high := if a = 4 then 0x8F else 0xBF
          bits := a } ∧
        ¬ UInt8.ofNat (a + 240) < 0x80 := by
    decide
  exact hAll a ha

theorem firstChar_one {n : Nat} (hn : n ≤ 0x7F) (rest : List UInt8) :
    firstChar (UInt8.ofNat n) rest = (some (Char.ofNat n), 0) := by
  have hByte : (UInt8.ofNat n).toNat = n := toNat_ofNat_of_lt (by omega)
  have hLow : UInt8.ofNat n < 0x80 := by
    rw [UInt8.lt_iff_toNat_lt, hByte]
    exact Nat.lt_succ_of_le hn
  rw [firstChar, if_pos hLow, hByte]

theorem firstChar_two {n : Nat} (hLow : 0x7F < n) (hHigh : n ≤ 0x7FF) (rest : List UInt8) :
    firstChar (UInt8.ofNat (n / 64 % 32 + 192)) (UInt8.ofNat (n % 64 + 128) :: rest) =
      (some (Char.ofNat n), 1) := by
  obtain ⟨hLead, hByte⟩ := of?_two (a := n / 64 % 32) (by omega) (by omega)
  have hCode : n / 64 % 32 * 64 + n % 64 = n := by omega
  rw [firstChar_of_lead hLead hByte, continuation_tail (by omega), hCode]
  simp [continuation]

/-- Three bytes; the second one shows that fewer would not do, and that there is no surrogate. -/
theorem firstChar_three {n : Nat} (hLow : 0x7FF < n) (hHigh : n ≤ 0xFFFF)
    (hPlain : n < 0xD800 ∨ 0xDFFF < n) (rest : List UInt8) :
    firstChar (UInt8.ofNat (n / 4096 % 16 + 224))
        (UInt8.ofNat (n / 64 % 64 + 128) :: UInt8.ofNat (n % 64 + 128) :: rest) =
      (some (Char.ofNat n), 2) := by
  obtain ⟨hLead, hByte⟩ := of?_three (a := n / 4096 % 16) (by omega)
  have hCode : (n / 4096 % 16 * 64 + n / 64 % 64) * 64 + n % 64 = n := by omega
  have hSecond : (if n / 4096 % 16 = 0 then (0xA0 : UInt8) else 0x80).toNat ≤
      n / 64 % 64 + 128 := by
    split
    · have h : 160 ≤ n / 64 % 64 + 128 := by omega
      exact h
    · exact Nat.le_add_left 128 _
  have hSecond' : n / 64 % 64 + 128 ≤
      (if n / 4096 % 16 = 13 then (0x9F : UInt8) else 0xBF).toNat := by
    split
    · have h : n / 64 % 64 + 128 ≤ 159 := by omega
      exact h
    · have h : n / 64 % 64 + 128 ≤ 191 := by omega
      exact h
  rw [firstChar_of_lead hLead hByte]
  dsimp only
  rw [continuation_cons (by omega) hSecond hSecond', continuation_tail (by omega), hCode]
  simp [continuation]

/-- Four bytes; the second one shows that fewer would not do, and that there is such a code
point. -/
theorem firstChar_four {n : Nat} (hLow : 0xFFFF < n) (hHigh : n < 0x110000) (rest : List UInt8) :
    firstChar (UInt8.ofNat (n / 262144 % 8 + 240))
        (UInt8.ofNat (n / 4096 % 64 + 128) :: UInt8.ofNat (n / 64 % 64 + 128) ::
          UInt8.ofNat (n % 64 + 128) :: rest) =
      (some (Char.ofNat n), 3) := by
  have hFirst : n / 262144 % 8 = n / 262144 := by omega
  obtain ⟨hLead, hByte⟩ := of?_four (a := n / 262144) (by omega)
  have hCode : ((n / 262144 * 64 + n / 4096 % 64) * 64 + n / 64 % 64) * 64 + n % 64 = n := by
    omega
  have hSecond : (if n / 262144 = 0 then (0x90 : UInt8) else 0x80).toNat ≤
      n / 4096 % 64 + 128 := by
    split
    · have h : 144 ≤ n / 4096 % 64 + 128 := by omega
      exact h
    · exact Nat.le_add_left 128 _
  have hSecond' : n / 4096 % 64 + 128 ≤
      (if n / 262144 = 4 then (0x8F : UInt8) else 0xBF).toNat := by
    split
    · have h : n / 4096 % 64 + 128 ≤ 143 := by omega
      exact h
    · have h : n / 4096 % 64 + 128 ≤ 191 := by omega
      exact h
  rw [hFirst, firstChar_of_lead hLead hByte]
  dsimp only
  rw [continuation_cons (by omega) hSecond hSecond', continuation_tail (by omega),
    continuation_tail (by omega), hCode]
  simp [continuation]

/-- A character is read back from its bytes, whatever follows them. -/
theorem firstChar_utf8EncodeChar (c : Char) (rest : List UInt8) :
    ∃ b bs, String.utf8EncodeChar c = b :: bs ∧ firstChar b (bs ++ rest) = (some c, bs.length) := by
  have hValid : c.toNat < 0xD800 ∨ 0xDFFF < c.toNat ∧ c.toNat < 0x110000 := c.valid
  have hSame : Char.ofNat c.toNat = c := Char.ofNat_toNat c
  rw [utf8EncodeChar_eq]
  split
  next hOne =>
    refine ⟨_, [], rfl, ?_⟩
    rw [List.nil_append, firstChar_one hOne, hSame, List.length_nil]
  next hOne =>
    split
    next hTwo =>
      refine ⟨_, [_], rfl, ?_⟩
      rw [List.singleton_append, firstChar_two (by omega) hTwo, hSame, List.length_singleton]
    next hTwo =>
      split
      next hThree =>
        refine ⟨_, [_, _], rfl, ?_⟩
        rw [List.cons_append, List.singleton_append,
          firstChar_three (by omega) hThree (by omega), hSame]
        rfl
      next hThree =>
        refine ⟨_, [_, _, _], rfl, ?_⟩
        rw [List.cons_append, List.cons_append, List.singleton_append,
          firstChar_four (by omega) (by omega), hSame]
        rfl

theorem utf8EncodeChar_ne_nil (c : Char) : String.utf8EncodeChar c ≠ [] := by
  obtain ⟨b, bs, hBytes, -⟩ := firstChar_utf8EncodeChar c []
  rw [hBytes]
  exact List.cons_ne_nil b bs

/-! ## Texts -/

theorem utf8Pieces_append (bs rest : List UInt8) :
    utf8Pieces bs.length (bs ++ rest) = utf8Pieces 0 rest := by
  induction bs with
  | nil => rfl
  | cons b bs ih => exact ih

theorem utf8Pieces_flatMap (cs : List Char) :
    utf8Pieces 0 (cs.flatMap String.utf8EncodeChar) = cs.map some := by
  induction cs with
  | nil => rfl
  | cons c cs ih =>
    obtain ⟨b, bs, hBytes, hChar⟩ :=
      firstChar_utf8EncodeChar c (cs.flatMap String.utf8EncodeChar)
    rw [List.flatMap_cons, hBytes, List.cons_append, utf8Pieces, hChar]
    dsimp only
    rw [utf8Pieces_append, ih, List.map_cons]

/-- A text is read back from its bytes. -/
theorem decodeLossy_utf8Bytes (s : String) : decodeLossy (utf8Bytes s) = s := by
  rw [decodeLossy, utf8Bytes, utf8Pieces_flatMap, List.map_map]
  simp [Function.comp_def]

theorem utf8Bytes_append (a b : String) : utf8Bytes (a ++ b) = utf8Bytes a ++ utf8Bytes b := by
  simp [utf8Bytes]

theorem length_utf8Pieces_le (skip : Nat) (bs : List UInt8) :
    (utf8Pieces skip bs).length ≤ bs.length := by
  fun_induction utf8Pieces skip bs with
  | case1 => exact Nat.le_refl _
  | case2 skip b bs ih => exact Nat.le_succ_of_le ih
  | case3 b bs c size hChar ih => exact Nat.succ_le_succ ih

/-- There are at most as many characters as bytes. -/
theorem length_decodeLossy_le (bs : List UInt8) : (decodeLossy bs).length ≤ bs.length := by
  rw [decodeLossy, String.length_ofList, List.length_map]
  exact length_utf8Pieces_le 0 bs

/-! ## ASCII characters -/

section Ascii

variable {c : Char} (hc : c.toNat < 128)
include hc

theorem mem_utf8EncodeChar_iff {d : Char} :
    UInt8.ofNat c.toNat ∈ String.utf8EncodeChar d ↔ d = c := by
  have hByte : (UInt8.ofNat c.toNat).toNat = c.toNat := toNat_ofNat_of_lt (by omega)
  constructor
  · intro hMem
    by_cases hd : d.toNat < 128
    · rw [utf8EncodeChar_ascii hd, List.mem_singleton] at hMem
      have hSame := congrArg UInt8.toNat hMem
      rw [hByte, toNat_ofNat_of_lt (by omega)] at hSame
      exact Char.toNat_inj.1 hSame.symm
    · have hHigh := le_of_mem_utf8EncodeChar (Nat.le_of_not_lt hd) hMem
      rw [hByte] at hHigh
      omega
  · rintro rfl
    rw [utf8EncodeChar_ascii hc]
    exact List.mem_singleton_self _

theorem mem_utf8Bytes_iff {s : String} : UInt8.ofNat c.toNat ∈ utf8Bytes s ↔ c ∈ s.toList := by
  rw [utf8Bytes, List.mem_flatMap]
  constructor
  · rintro ⟨d, hd, hMem⟩
    exact (mem_utf8EncodeChar_iff hc).1 hMem ▸ hd
  · exact fun hMem => ⟨c, hMem, (mem_utf8EncodeChar_iff hc).2 rfl⟩

/-- Bytes are cut at an ASCII character where the text is cut. -/
theorem splitAt_utf8Bytes (cs : List Char) :
    splitAt (UInt8.ofNat c.toNat) (cs.flatMap String.utf8EncodeChar) =
      (splitAt c cs).map fun piece => piece.flatMap String.utf8EncodeChar := by
  induction cs with
  | nil => rfl
  | cons d cs ih =>
    rw [List.flatMap_cons, splitAt]
    by_cases hd : d = c
    · subst hd
      rw [if_pos rfl, utf8EncodeChar_ascii hc, List.singleton_append, splitAt, if_pos rfl, ih]
      rfl
    · rw [if_neg hd]
      have hSep : UInt8.ofNat c.toNat ∉ String.utf8EncodeChar d :=
        fun hMem => hd ((mem_utf8EncodeChar_iff hc).1 hMem)
      cases hPieces : splitAt c cs with
      | nil => exact absurd hPieces (splitAt_ne_nil c cs)
      | cons piece pieces =>
        rw [hPieces, List.map_cons] at ih
        rw [splitAt_append_of_not_mem hSep ih, List.map_cons, List.flatMap_cons]

theorem flatMap_joinWith (pieces : List (List Char)) :
    (joinWith c pieces).flatMap String.utf8EncodeChar =
      joinWith (UInt8.ofNat c.toNat) (pieces.map fun piece =>
        piece.flatMap String.utf8EncodeChar) := by
  induction pieces with
  | nil => rfl
  | cons piece rest ih =>
    by_cases hRest : rest = []
    · subst hRest
      rfl
    · rw [joinWith_cons piece hRest, List.flatMap_append, List.flatMap_cons,
        utf8EncodeChar_ascii hc, ih, List.map_cons, joinWith_cons _ (by simpa using hRest)]
      rfl

theorem head?_utf8Bytes_iff {s : String} :
    (utf8Bytes s).head? = some (UInt8.ofNat c.toNat) ↔ s.toList.head? = some c := by
  rw [utf8Bytes]
  cases s.toList with
  | nil => simp
  | cons d cs =>
    rw [List.flatMap_cons, List.head?_append_of_ne_nil _ (utf8EncodeChar_ne_nil d), List.head?_cons,
      Option.some.injEq]
    constructor
    · exact fun hHead => (mem_utf8EncodeChar_iff hc).1 (List.mem_of_mem_head? hHead)
    · rintro rfl
      rw [utf8EncodeChar_ascii hc]
      rfl

theorem getLast?_utf8Bytes_iff {s : String} :
    (utf8Bytes s).getLast? = some (UInt8.ofNat c.toNat) ↔ s.toList.getLast? = some c := by
  rw [utf8Bytes]
  rcases List.eq_nil_or_concat s.toList with hNil | ⟨cs, d, hLast⟩
  · simp [hNil]
  · rw [hLast, List.concat_eq_append, List.flatMap_append, List.flatMap_singleton,
      List.getLast?_append_of_ne_nil _ (utf8EncodeChar_ne_nil d), List.getLast?_concat,
      Option.some.injEq]
    constructor
    · exact fun hEnd => (mem_utf8EncodeChar_iff hc).1 (List.mem_of_getLast? hEnd)
    · rintro rfl
      rw [utf8EncodeChar_ascii hc]
      rfl

end Ascii

end CompileHost.Text
