import BitcoinLight.Bytes.Reader
import BitcoinLight.Bytes.Word

set_option autoImplicit false

/-!
# Block headers

A block header is 80 bytes: version, the previous block's hash, the merkle root, the time, the
compact target and the nonce. Its hash, the double SHA-256 of those bytes, names the block and,
read as a little-endian number, is what proof of work compares with the target.
-/

namespace BitcoinLight

/-- A block header. -/
structure Header where
  version : Int32
  prevHash : Hash256
  merkleRoot : Hash256
  timestamp : UInt32
  bits : UInt32
  nonce : UInt32
  deriving DecidableEq

namespace Header

def serialize (h : Header) : ByteArray :=
  Word.i32 h.version ++ h.prevHash.bytes ++ h.merkleRoot.bytes ++ Word.u32 h.timestamp ++
    Word.u32 h.bits ++ Word.u32 h.nonce

def hash (h : Header) : Hash256 := sha256d h.serialize

/-- Reads a header. -/
def read : Read Header := do
  let v ← Read.i32
  let p ← Read.hash
  let m ← Read.hash
  let t ← Read.u32
  let b ← Read.u32
  let n ← Read.u32
  pure ⟨v, p, m, t, b, n⟩

/-- Reads exactly one header. -/
def parse (b : ByteArray) : Except DecodeError Header :=
  match (do let h ← read; Read.finish; pure h : Read Header) (Cursor.start b) with
  | .ok h _ => .ok h
  | .error e _ => .error e

end Header

end BitcoinLight
