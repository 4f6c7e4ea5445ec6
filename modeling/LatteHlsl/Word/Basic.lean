/-!
# Microcode words

A microcode program is a string of bytes read as 32-bit words, least significant byte first.

* `Word.toBytes`, `Word.ofBytes`: a word as its four bytes, and back.
* `Word.readAt`: the word that starts at a byte position.
-/

namespace LatteHlsl

/-- A 32-bit microcode word. -/
abbrev Word := BitVec 32

namespace Word

/-- Byte `i` of a word, counted from the least significant one. -/
def byte (w : Word) (i : Nat) : UInt8 := ⟨w.extractLsb' (8 * i) 8⟩

/-- The four bytes of a word, least significant first. -/
def toBytes (w : Word) : List UInt8 :=
  [byte w 0, byte w 1, byte w 2, byte w 3]

/-- The word with the given bytes, least significant first. -/
def ofBytes (b0 b1 b2 b3 : UInt8) : Word :=
  b3.toBitVec ++ b2.toBitVec ++ b1.toBitVec ++ b0.toBitVec

/-- The word whose first byte stands at position `pos`. Bytes past the end read as zero; the
bounds checks of `Program` come before every use. -/
def readAt (bytes : Array UInt8) (pos : Nat) : Word :=
  ofBytes (bytes.getD pos 0) (bytes.getD (pos + 1) 0) (bytes.getD (pos + 2) 0)
    (bytes.getD (pos + 3) 0)

/-- The bytes of a list of words, one word after the other. -/
def listToBytes (ws : List Word) : List UInt8 := ws.flatMap toBytes

@[simp] theorem length_toBytes (w : Word) : (toBytes w).length = 4 := rfl

end Word

end LatteHlsl
