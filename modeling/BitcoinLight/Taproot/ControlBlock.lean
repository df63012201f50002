import BitcoinLight.Curve.Secp256k1
import BitcoinLight.Hash.Digest
import BitcoinLight.Bytes.Word

set_option autoImplicit false

/-!
# Annexes and control blocks

A witness element that starts with `0x50` is an annex when it is the last of at least two
elements. A control block proves that a script is a leaf of an output key's script tree: one byte
holding the leaf version (even) and the parity of the output key, the 32-byte internal key, and up
to 128 branch hashes of 32 bytes.
-/

namespace BitcoinLight.Taproot

def tapscriptLeafVersion : UInt8 := 0xc0

def isAnnex (e : ByteArray) : Bool := e[0]? == some 0x50

/-- The annex of a stack: its last element, when there are at least two and it is tagged. -/
def annexOf? (stack : List ByteArray) : Option ByteArray :=
  match stack.getLast? with
  | some last => if stack.length ≥ 2 && isAnnex last then some last else none
  | none => none

def annexHash (annex : ByteArray) : Hash256 := sha256 (Word.varBytes annex)

/-- A parsed control block. -/
structure ControlBlock where
  leafVersion : UInt8
  parity : UInt8
  internalKey : ByteArray
  branch : List Hash256
  deriving DecidableEq

def chunks32 (b : ByteArray) : List Hash256 :=
  (List.range (b.size / 32)).filterMap (fun k => Hash256.ofBytes? (b.extract (32 * k) (32 * k + 32)))

namespace ControlBlock

/-- Reads a control block: 33 + 32k bytes with k ≤ 128, then a valid internal key. -/
def parse (b : ByteArray) : Except ScriptError ControlBlock :=
  if b.size < 33 ∨ b.size > 33 + 32 * 128 ∨ (b.size - 33) % 32 ≠ 0 then
    .error (.controlBlockSize b.size)
  else
    let key := b.extract 1 33
    match Secp256k1.xOnlyPoint? key with
    | none => .error .badInternalKey
    | some _ =>
      let first := b[0]?.getD 0
      .ok ⟨first &&& 0xfe, first &&& 1, key, chunks32 (b.extract 33 b.size)⟩

def serialize (cb : ControlBlock) : ByteArray :=
  cb.branch.foldl (fun acc h => acc ++ h.bytes)
    (ByteArray.empty.push (cb.leafVersion ||| cb.parity) ++ cb.internalKey)

end ControlBlock

end BitcoinLight.Taproot
