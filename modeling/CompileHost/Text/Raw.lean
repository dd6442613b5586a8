import CompileHost.Text.Utf8

/-!
# Raw texts

A file system keeps names and paths as bytes, and does not ask whether they are UTF-8.  A text that
is handed to it stands for its bytes; bytes that come from it are read as a text with `U+FFFD` for
all that is no character, so that different raw texts may read alike.
-/

namespace CompileHost

structure RawText where
  bytes : List UInt8
  deriving DecidableEq

namespace RawText

def ofText (text : String) : RawText :=
  ⟨Text.utf8Bytes text⟩

instance : Coe String RawText := ⟨ofText⟩

/-- What a raw text is read as. -/
def text (raw : RawText) : String :=
  Text.decodeLossy raw.bytes

/-- The number of bytes. -/
def size (raw : RawText) : Nat :=
  raw.bytes.length

/-- The byte between the names of a path. -/
def slash : UInt8 := UInt8.ofNat '/'.toNat

/-- The byte that no path may hold. -/
def null : UInt8 := UInt8.ofNat '\x00'.toNat

end RawText

end CompileHost
