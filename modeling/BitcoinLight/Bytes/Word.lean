set_option autoImplicit false

/-!
# Little-endian words and compact sizes

Fixed-width numbers are written least significant byte first. A compact size is one byte below
`0xfd`, else a marker byte `0xfd`, `0xfe` or `0xff` followed by 2, 4 or 8 little-endian bytes: the
shortest form that holds the value.

Powers of numbers, the zero a sum starts from, and the equality of byte strings are decided with
the core library's instances, whatever else is imported beside this library: with a second
instance in scope the same text would elaborate to another term. They are declared here, below
everything else.
-/

namespace BitcoinLight

universe u

@[default_instance 20000]
instance (priority := 1100) natPow {α : Type u} [NatPow α] : Pow α Nat := instPowNat

instance (priority := 1100) zeroOfNat {α : Type u} [OfNat α 0] : Zero α := Zero.ofOfNat0

instance (priority := 1100) byteArrayDecEq : DecidableEq ByteArray := ByteArray.instDecidableEq

end BitcoinLight

namespace BitcoinLight.Word

def le (n v : Nat) : ByteArray :=
  ⟨Array.ofFn (n := n) fun i => (v >>> (8 * i.val)).toUInt8⟩

@[simp] theorem le_size (n v : Nat) : (le n v).size = n :=
  Array.size_ofFn

def u32 (v : UInt32) : ByteArray := le 4 v.toNat

def i32 (v : Int32) : ByteArray := le 4 v.toUInt32.toNat

def u64 (v : UInt64) : ByteArray := le 8 v.toNat

def i64 (v : Int64) : ByteArray := le 8 v.toUInt64.toNat

def compactSizeLen (v : Nat) : Nat :=
  if v < 0xfd then 1 else if v ≤ 0xffff then 3 else if v ≤ 0xffffffff then 5 else 9

/-- The compact size of `v`, for `v` below 2^64. -/
def compactSize (v : Nat) : ByteArray :=
  if v < 0xfd then ByteArray.empty.push v.toUInt8
  else if v ≤ 0xffff then ByteArray.empty.push 0xfd ++ le 2 v
  else if v ≤ 0xffffffff then ByteArray.empty.push 0xfe ++ le 4 v
  else ByteArray.empty.push 0xff ++ le 8 v

def varBytes (b : ByteArray) : ByteArray := compactSize b.size ++ b

end BitcoinLight.Word
