import BitcoinLight.Hash.Ripemd160
import BitcoinLight.Error

set_option autoImplicit false

/-!
# 32-byte hashes and the digests built from SHA-256

A `Hash256` holds its bytes in internal order, the order in which they are serialized and hashed.
People read block and transaction hashes in the reverse order; `toDisplayHex` and
`ofDisplayHex` convert between the two.
-/

namespace BitcoinLight

/-- Thirty-two bytes in internal order. -/
structure Hash256 where
  bytes : ByteArray
  size_eq : bytes.size = 32

namespace Hash256

instance : DecidableEq Hash256 := fun a b =>
  if h : a.bytes = b.bytes then
    isTrue (by cases a; cases b; simp only at h; subst h; rfl)
  else isFalse (fun e => h (congrArg Hash256.bytes e))

instance : Hashable Hash256 := ⟨fun h => h.bytes.foldl (fun acc x => mixHash acc x.toUInt64) 7⟩

def zero : Hash256 := ⟨⟨Array.replicate 32 0⟩, Array.size_replicate⟩

instance : Inhabited Hash256 := ⟨zero⟩

def ofBytes? (b : ByteArray) : Option Hash256 :=
  if h : b.size = 32 then some ⟨b, h⟩ else none

def reverse (h : Hash256) : Hash256 :=
  ⟨⟨h.bytes.data.reverse⟩, (Array.size_reverse).trans h.size_eq⟩

def toHex (h : Hash256) : String := Hex.encode h.bytes

def toDisplayHex (h : Hash256) : String := Hex.encode h.reverse.bytes

/-- Reads a display-order hex text; hex errors come before the length check. -/
def ofDisplayHex (s : String) : Except DecodeError Hash256 :=
  match Hex.decode s with
  | .error e => .error (.badHex e)
  | .ok b =>
    match ofBytes? b with
    | none => .error .hashLength
    | some h => .ok h.reverse

/-- Lexicographic order of two byte lists. -/
def lexCompare : List UInt8 → List UInt8 → Ordering
  | [], [] => .eq
  | [], _ :: _ => .lt
  | _ :: _, [] => .gt
  | x :: xs, y :: ys => if x < y then .lt else if y < x then .gt else lexCompare xs ys

def compareBytes (a b : Hash256) : Ordering := lexCompare a.bytes.toList b.bytes.toList

def toNatLE (h : Hash256) : Nat := h.bytes.data.foldr (fun x acc => acc * 256 + x.toNat) 0

def toNatBE (h : Hash256) : Nat := h.bytes.foldl (fun acc x => acc * 256 + x.toNat) 0

end Hash256

def natToBytesBE (n v : Nat) : ByteArray :=
  ⟨Array.ofFn (n := n) fun i => (v >>> (8 * (n - 1 - i.val))).toUInt8⟩

def Hash256.ofNatBE (v : Nat) : Hash256 :=
  ⟨natToBytesBE 32 v, Array.size_ofFn⟩

def sha256 (b : ByteArray) : Hash256 := ⟨Sha256.hash b, Sha256.hash_size b⟩

def sha256d (b : ByteArray) : Hash256 := sha256 (Sha256.hash b)

def hash160 (b : ByteArray) : ByteArray := Ripemd160.hash (Sha256.hash b)

def taggedHash (tag : String) (data : ByteArray) : Hash256 :=
  let t := Sha256.hash tag.toUTF8
  sha256 (t ++ t ++ data)

end BitcoinLight
