/-!
# UTF-8

Bytes as text.  `decode?` accepts well-formed text only; `decodeLossy` reads every sequence of
bytes, and writes `U+FFFD` for each longest piece that begins like a character and is none.
-/

namespace CompileHost.Text

/-- The bytes of a text. -/
def utf8Bytes (s : String) : List UInt8 :=
  s.toList.flatMap String.utf8EncodeChar

/-- How a character of several bytes goes on: the number of bytes that follow the first, the range
of the second, and the bits of the first that count. -/
structure Lead where
  following : Nat
  low : UInt8 := 0x80
  high : UInt8 := 0xBF
  bits : Nat
  deriving DecidableEq

/-- What a first byte beyond ASCII announces. -/
def Lead.of? (b : UInt8) : Option Lead :=
  let n := b.toNat
  if 0xC2 ≤ b ∧ b ≤ 0xDF then some { following := 1, bits := n - 0xC0 }
  else if b = 0xE0 then some { following := 2, low := 0xA0, bits := 0 }
  else if b = 0xED then some { following := 2, high := 0x9F, bits := n - 0xE0 }
  else if 0xE1 ≤ b ∧ b ≤ 0xEF then some { following := 2, bits := n - 0xE0 }
  else if b = 0xF0 then some { following := 3, low := 0x90, bits := 0 }
  else if 0xF1 ≤ b ∧ b ≤ 0xF3 then some { following := 3, bits := n - 0xF0 }
  else if b = 0xF4 then some { following := 3, high := 0x8F, bits := 4 }
  else none

/-- Reads the bytes that follow a first one: the number of those that fit, and the code point if
all do. -/
def continuation (value : Nat) (low high : UInt8) : Nat → List UInt8 → Nat × Option Nat
  | 0, _ => (0, some value)
  | _ + 1, [] => (0, none)
  | n + 1, b :: bs =>
    if low ≤ b ∧ b ≤ high then
      let (fitting, code) := continuation (value * 64 + (b.toNat - 0x80)) 0x80 0xBF n bs
      (fitting + 1, code)
    else (0, none)

/-- The character at the front of some bytes, nothing where they are malformed, and the number of
bytes behind the first that belong to it. -/
def firstChar (b : UInt8) (bs : List UInt8) : Option Char × Nat :=
  if b < 0x80 then (some (Char.ofNat b.toNat), 0)
  else
    match Lead.of? b with
    | none => (none, 0)
    | some lead =>
      let (fitting, code) := continuation lead.bits lead.low lead.high lead.following bs
      (code.map Char.ofNat, fitting)

/-- The characters of some bytes, of which the first `skip` are spoken for. -/
def utf8Pieces : Nat → List UInt8 → List (Option Char)
  | _, [] => []
  | skip + 1, _ :: bs => utf8Pieces skip bs
  | 0, b :: bs =>
    let (c, size) := firstChar b bs
    c :: utf8Pieces size bs

/-- The text of well-formed bytes. -/
def decode? (bytes : List UInt8) : Option String :=
  ((utf8Pieces 0 bytes).mapM id).map String.ofList

/-- The text of any bytes. -/
def decodeLossy (bytes : List UInt8) : String :=
  String.ofList ((utf8Pieces 0 bytes).map fun c => c.getD '\uFFFD')

end CompileHost.Text
