import BitcoinLight.Bytes.Word

set_option autoImplicit false

/-!
# Compact targets and the work they stand for

A compact target is a 32-bit word: a size byte and a 23-bit mantissa with a sign bit, standing for
mantissa · 256^(size − 3). Targets are 256-bit numbers, kept here as natural numbers below 2^256.
The work of a block is the expected number of hashes to meet its target, ⌊2^256 / (target + 1)⌋.
-/

namespace BitcoinLight.Work

def maxU256 : Nat := 2 ^ 256 - 1

/-- A decoded compact target and its two flags. -/
structure Compact where
  target : Nat
  negative : Bool
  overflow : Bool
  deriving DecidableEq, Repr

def Compact.valid (c : Compact) : Bool := !c.negative && !c.overflow && c.target != 0

/-- Decodes a compact target. A value that does not fit in 256 bits overflows and decodes to
zero; a set sign bit with a non-zero mantissa is negative. -/
def expandTarget (bits : UInt32) : Compact :=
  let size := (bits >>> 24).toNat
  let word := (bits &&& 0x7fffff).toNat
  let overflow := word != 0 && (size > 34 || (word > 0xff && size > 33) || (word > 0xffff && size > 32))
  let negative := word != 0 && bits &&& 0x800000 != 0
  if overflow then ⟨0, negative, overflow⟩
  else if size ≤ 3 then ⟨word >>> (8 * (3 - size)), negative, overflow⟩
  else ⟨(word <<< (8 * (size - 3))) % 2 ^ 256, negative, overflow⟩

def bitLength (t : Nat) : Nat := if t = 0 then 0 else t.log2 + 1

/-- Encodes a target as the compact word with the largest mantissa that keeps its sign bit clear;
bytes below the mantissa are dropped. -/
def compressTarget (t : Nat) : UInt32 :=
  let size := (bitLength t + 7) / 8
  let compact :=
    if size ≤ 3 then ((t % 2 ^ 64) <<< (8 * (3 - size))) % 2 ^ 32
    else (t >>> (8 * (size - 3))) % 2 ^ 32
  let (compact, size) := if compact &&& 0x800000 != 0 then (compact >>> 8, size + 1) else (compact, size)
  (compact ||| (size <<< 24)).toUInt32

/-- The work of a block with this compact target, or zero when the target is unusable. The
expected number of hashes, 2^256 / (target + 1), is computed without leaving 256 bits, from the
complement of the target: (2^256 − 1 − target) / (target + 1) + 1. -/
def blockProof (bits : UInt32) : Nat :=
  let c := expandTarget bits
  if c.valid then (maxU256 - c.target) / (c.target + 1) + 1 else 0

def addWork (a b : Nat) : Nat := min (a + b) maxU256

end BitcoinLight.Work
