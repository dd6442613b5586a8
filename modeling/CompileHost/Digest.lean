import CompileHost.Text.Utf8

/-!
# A 64-bit digest

XXH3 with 64 bits, without a seed and with the standard secret.  Texts of up to 16, 128 and 240
bytes are mixed in one go, longer ones stripe by stripe.
-/

namespace CompileHost.Digest

def prime32a : UInt64 := 0x9E3779B1
def prime32b : UInt64 := 0x85EBCA77
def prime32c : UInt64 := 0xC2B2AE3D
def prime64a : UInt64 := 0x9E3779B185EBCA87
def prime64b : UInt64 := 0xC2B2AE3D27D4EB4F
def prime64c : UInt64 := 0x165667B19E3779F9
def prime64d : UInt64 := 0x85EBCA77C2B2AE63
def prime64e : UInt64 := 0x27D4EB2F165667C5

/-- The secret that inputs are mixed with. -/
def secret : List UInt8 :=
  [0xb8, 0xfe, 0x6c, 0x39, 0x23, 0xa4, 0x4b, 0xbe, 0x7c, 0x01, 0x81, 0x2c, 0xf7, 0x21, 0xad, 0x1c,
   0xde, 0xd4, 0x6d, 0xe9, 0x83, 0x90, 0x97, 0xdb, 0x72, 0x40, 0xa4, 0xa4, 0xb7, 0xb3, 0x67, 0x1f,
   0xcb, 0x79, 0xe6, 0x4e, 0xcc, 0xc0, 0xe5, 0x78, 0x82, 0x5a, 0xd0, 0x7d, 0xcc, 0xff, 0x72, 0x21,
   0xb8, 0x08, 0x46, 0x74, 0xf7, 0x43, 0x24, 0x8e, 0xe0, 0x35, 0x90, 0xe6, 0x81, 0x3a, 0x26, 0x4c,
   0x3c, 0x28, 0x52, 0xbb, 0x91, 0xc3, 0x00, 0xcb, 0x88, 0xd0, 0x65, 0x8b, 0x1b, 0x53, 0x2e, 0xa3,
   0x71, 0x64, 0x48, 0x97, 0xa2, 0x0d, 0xf9, 0x4e, 0x38, 0x19, 0xef, 0x46, 0xa9, 0xde, 0xac, 0xd8,
   0xa8, 0xfa, 0x76, 0x3f, 0xe3, 0x9c, 0x34, 0x3f, 0xf9, 0xdc, 0xbb, 0xc7, 0xc7, 0x0b, 0x4f, 0x1d,
   0x8a, 0x51, 0xe0, 0x4b, 0xcd, 0xb4, 0x59, 0x31, 0xc8, 0x9f, 0x7e, 0xc9, 0xd9, 0x78, 0x73, 0x64,
   0xea, 0xc5, 0xac, 0x83, 0x34, 0xd3, 0xeb, 0xc3, 0xc5, 0x81, 0xa0, 0xff, 0xfa, 0x13, 0x63, 0xeb,
   0x17, 0x0d, 0xdd, 0x51, 0xb7, 0xf0, 0xda, 0x49, 0xd3, 0x16, 0x55, 0x26, 0x29, 0xd4, 0x68, 0x9e,
   0x2b, 0x16, 0xbe, 0x58, 0x7d, 0x47, 0xa1, 0xfc, 0x8f, 0xf8, 0xb8, 0xd1, 0x7a, 0xd0, 0x31, 0xce,
   0x45, 0xcb, 0x3a, 0x8f, 0x95, 0x16, 0x04, 0x28, 0xaf, 0xd7, 0xfb, 0xca, 0xbb, 0x4b, 0x40, 0x7e]

/-- The number that some bytes spell, the lowest first. -/
def littleEndian (bytes : List UInt8) : Nat :=
  bytes.foldr (fun b n => b.toNat + 256 * n) 0

/-- The eight bytes from a position on, as a word. -/
def word64 (bytes : List UInt8) (i : Nat) : UInt64 :=
  UInt64.ofNat (littleEndian ((bytes.drop i).take 8))

/-- The four bytes from a position on, as a word. -/
def word32 (bytes : List UInt8) (i : Nat) : UInt64 :=
  UInt64.ofNat (littleEndian ((bytes.drop i).take 4))

def byteAt (bytes : List UInt8) (i : Nat) : UInt64 :=
  ((bytes[i]?).getD 0).toUInt64

def rotateLeft (w : UInt64) (n : UInt64) : UInt64 :=
  (w <<< n) ||| (w >>> (64 - n))

/-- The bytes of a word in the opposite order. -/
def swapBytes (w : UInt64) : UInt64 :=
  (List.range 8).foldl (fun acc i => (acc <<< 8) ||| ((w >>> (8 * UInt64.ofNat i)) &&& 0xFF)) 0

/-- The two halves of the full product, one laid over the other. -/
def foldedProduct (a b : UInt64) : UInt64 :=
  let product := a.toNat * b.toNat
  UInt64.ofNat product ^^^ UInt64.ofNat (product >>> 64)

def avalanche (h : UInt64) : UInt64 :=
  let h := h ^^^ (h >>> 37)
  let h := h * 0x165667919E3779F9
  h ^^^ (h >>> 32)

/-- The finish of very short inputs. -/
def avalancheShort (h : UInt64) : UInt64 :=
  let h := h ^^^ (h >>> 33)
  let h := h * prime64b
  let h := h ^^^ (h >>> 29)
  let h := h * prime64c
  h ^^^ (h >>> 32)

/-- Mixes sixteen bytes of the input with sixteen of the secret. -/
def mix16 (bytes : List UInt8) (i j : Nat) : UInt64 :=
  foldedProduct (word64 bytes i ^^^ word64 secret j) (word64 bytes (i + 8) ^^^ word64 secret (j + 8))

def upTo3 (bytes : List UInt8) (size : Nat) : UInt64 :=
  let first := byteAt bytes 0
  let middle := byteAt bytes (size / 2)
  let last := byteAt bytes (size - 1)
  let joined := (first <<< 16) ||| (middle <<< 24) ||| last ||| (UInt64.ofNat size <<< 8)
  avalancheShort (joined ^^^ (word32 secret 0 ^^^ word32 secret 4))

def upTo8 (bytes : List UInt8) (size : Nat) : UInt64 :=
  let joined := word32 bytes (size - 4) + (word32 bytes 0 <<< 32)
  let h := joined ^^^ (word64 secret 8 ^^^ word64 secret 16)
  let h := h ^^^ rotateLeft h 49 ^^^ rotateLeft h 24
  let h := h * 0x9FB21C651E98DF25
  let h := h ^^^ ((h >>> 35) + UInt64.ofNat size)
  let h := h * 0x9FB21C651E98DF25
  h ^^^ (h >>> 28)

def upTo16 (bytes : List UInt8) (size : Nat) : UInt64 :=
  let low := word64 bytes 0 ^^^ (word64 secret 24 ^^^ word64 secret 32)
  let high := word64 bytes (size - 8) ^^^ (word64 secret 40 ^^^ word64 secret 48)
  avalanche (UInt64.ofNat size + swapBytes low + high + foldedProduct low high)

/-- Mixes pairs of pieces, from both ends of the input towards its middle. -/
def upTo128 (bytes : List UInt8) (size : Nat) : UInt64 :=
  let pairs := (List.range 4).filter fun i => i = 0 ∨ 32 * i < size
  avalanche <| pairs.foldl
    (fun acc i =>
      acc + mix16 bytes (16 * i) (32 * i) + mix16 bytes (size - 16 * (i + 1)) (32 * i + 16))
    (UInt64.ofNat size * prime64a)

def upTo240 (bytes : List UInt8) (size : Nat) : UInt64 :=
  let first := (List.range 8).foldl (fun acc i => acc + mix16 bytes (16 * i) (16 * i))
    (UInt64.ofNat size * prime64a)
  let rest := (List.range (size / 16 - 8)).foldl
    (fun acc i => acc + mix16 bytes (16 * (i + 8)) (16 * i + 3)) (avalanche first)
  avalanche (rest + mix16 bytes (size - 16) 119)

def wordAt (ws : List UInt64) (k : Nat) : UInt64 :=
  (ws[k]?).getD 0

/-- The product of the lower and the upper half of a word. -/
def halvesProduct (w : UInt64) : UInt64 :=
  UInt64.ofNat (w.toNat % Nat.pow 2 32) * UInt64.ofNat (w.toNat / Nat.pow 2 32)

/-- Takes a stripe of 64 bytes into the eight accumulators; each word is also added to the
accumulator beside its own. -/
def accumulate (acc : List UInt64) (bytes : List UInt8) (i j : Nat) : List UInt64 :=
  let values := (List.range 8).map fun k => word64 bytes (i + 8 * k)
  let keyed := (List.range 8).map fun k =>
    halvesProduct (wordAt values k ^^^ word64 secret (j + 8 * k))
  (List.range 8).map fun k =>
    let beside := if k % 2 = 0 then k + 1 else k - 1
    wordAt acc k + wordAt values beside + wordAt keyed k

def scramble (acc : List UInt64) : List UInt64 :=
  (List.range 8).map fun k =>
    let a := wordAt acc k
    (a ^^^ (a >>> 47) ^^^ word64 secret (128 + 8 * k)) * prime32a

/-- Takes in the given number of stripes of a block that starts at a position. -/
def block (bytes : List UInt8) (start stripes : Nat) (acc : List UInt64) : List UInt64 :=
  (List.range stripes).foldl (fun acc n => accumulate acc bytes (start + 64 * n) (8 * n)) acc

def long (bytes : List UInt8) (size : Nat) : UInt64 :=
  let seed := [prime32c, prime64a, prime64b, prime64c, prime64d, prime32b, prime64e, prime32a]
  let blocks := (size - 1) / 1024
  let acc := (List.range blocks).foldl
    (fun acc n => scramble (block bytes (1024 * n) 16 acc)) seed
  let acc := block bytes (1024 * blocks) ((size - 1 - 1024 * blocks) / 64) acc
  let acc := accumulate acc bytes (size - 64) 121
  avalanche <| (List.range 4).foldl
    (fun h i =>
      h + foldedProduct (wordAt acc (2 * i) ^^^ word64 secret (11 + 16 * i))
        (wordAt acc (2 * i + 1) ^^^ word64 secret (11 + 16 * i + 8)))
    (UInt64.ofNat size * prime64a)

/-- The digest of some bytes. -/
def ofBytes (bytes : List UInt8) : UInt64 :=
  let size := bytes.length
  if size = 0 then avalancheShort (word64 secret 56 ^^^ word64 secret 64)
  else if size ≤ 3 then upTo3 bytes size
  else if size ≤ 8 then upTo8 bytes size
  else if size ≤ 16 then upTo16 bytes size
  else if size ≤ 128 then upTo128 bytes size
  else if size ≤ 240 then upTo240 bytes size
  else long bytes size

/-- The low `count` hexadecimal digits of a number. -/
def hexDigits : Nat → Nat → List Char
  | 0, _ => []
  | count + 1, n => hexDigits count (n / 16) ++ [Nat.digitChar (n % 16)]

/-- The digest of a text, as 16 hexadecimal digits. -/
def ofText (s : String) : String :=
  String.ofList (hexDigits 16 (ofBytes (Text.utf8Bytes s)).toNat)

end CompileHost.Digest
