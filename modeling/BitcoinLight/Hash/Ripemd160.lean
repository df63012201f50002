import BitcoinLight.Hash.Sha256

set_option autoImplicit false

/-!
# RIPEMD-160

The 160-bit hash of Dobbertin, Bosselaers and Preneel. Padding is that of SHA-256 with the bit
length written little-endian; each 64-byte block runs two lines of 80 rounds over little-endian
words, which are then folded crosswise into the five-word state.
-/

namespace BitcoinLight.Ripemd160

open Sha256 (byteAt wordOf)

def wordAt (b : ByteArray) (i : Nat) : UInt32 :=
  (byteAt b i).toUInt32 ||| ((byteAt b (i + 1)).toUInt32 <<< 8) |||
    ((byteAt b (i + 2)).toUInt32 <<< 16) ||| ((byteAt b (i + 3)).toUInt32 <<< 24)

@[inline] def rotl (x : UInt32) (n : UInt32) : UInt32 := (x <<< n) ||| (x >>> (32 - n))

/-- Word order of the left line. -/
def leftOrder : Array Nat := #[
  0, 1, 2, 3, 4, 5, 6, 7, 8, 9, 10, 11, 12, 13, 14, 15,
  7, 4, 13, 1, 10, 6, 15, 3, 12, 0, 9, 5, 2, 14, 11, 8,
  3, 10, 14, 4, 9, 15, 8, 1, 2, 7, 0, 6, 13, 11, 5, 12,
  1, 9, 11, 10, 0, 8, 12, 4, 13, 3, 7, 15, 14, 5, 6, 2,
  4, 0, 5, 9, 7, 12, 2, 10, 14, 1, 3, 8, 11, 6, 15, 13]

/-- Word order of the right line. -/
def rightOrder : Array Nat := #[
  5, 14, 7, 0, 9, 2, 11, 4, 13, 6, 15, 8, 1, 10, 3, 12,
  6, 11, 3, 7, 0, 13, 5, 10, 14, 15, 8, 12, 4, 9, 1, 2,
  15, 5, 1, 3, 7, 14, 6, 9, 11, 8, 12, 2, 10, 0, 4, 13,
  8, 6, 4, 1, 3, 11, 15, 0, 5, 12, 2, 13, 9, 7, 10, 14,
  12, 15, 10, 4, 1, 5, 8, 7, 6, 2, 13, 14, 0, 3, 9, 11]

/-- Rotation amounts of the left line. -/
def leftShift : Array UInt32 := #[
  11, 14, 15, 12, 5, 8, 7, 9, 11, 13, 14, 15, 6, 7, 9, 8,
  7, 6, 8, 13, 11, 9, 7, 15, 7, 12, 15, 9, 11, 7, 13, 12,
  11, 13, 6, 7, 14, 9, 13, 15, 14, 8, 13, 6, 5, 12, 7, 5,
  11, 12, 14, 15, 14, 15, 9, 8, 9, 14, 5, 6, 8, 6, 5, 12,
  9, 15, 5, 11, 6, 8, 13, 12, 5, 12, 13, 14, 11, 8, 5, 6]

/-- Rotation amounts of the right line. -/
def rightShift : Array UInt32 := #[
  8, 9, 9, 11, 13, 15, 15, 5, 7, 7, 8, 11, 14, 14, 12, 6,
  9, 13, 15, 7, 12, 8, 9, 11, 7, 7, 12, 7, 6, 15, 13, 11,
  9, 7, 15, 11, 8, 6, 6, 14, 12, 13, 5, 14, 13, 13, 7, 5,
  15, 5, 8, 11, 14, 14, 6, 14, 6, 9, 12, 9, 12, 5, 15, 8,
  8, 5, 12, 9, 12, 5, 14, 6, 8, 13, 6, 5, 15, 13, 11, 11]

def leftConstants : Array UInt32 := #[0x00000000, 0x5a827999, 0x6ed9eba1, 0x8f1bbcdc, 0xa953fd4e]

def rightConstants : Array UInt32 := #[0x50a28be6, 0x5c4dd124, 0x6d703ef3, 0x7a6d76e9, 0x00000000]

/-- The boolean function of round group `g` (0 to 4). -/
@[inline] def mix (g : Nat) (x y z : UInt32) : UInt32 :=
  match g with
  | 0 => x ^^^ y ^^^ z
  | 1 => (x &&& y) ||| (~~~x &&& z)
  | 2 => (x ||| ~~~y) ^^^ z
  | 3 => (x &&& z) ||| (y &&& ~~~z)
  | _ => x ^^^ (y ||| ~~~z)

/-- The five working words of one line. -/
structure Line where
  a : UInt32
  b : UInt32
  c : UInt32
  d : UInt32
  e : UInt32

@[inline] def step (v : Line) (g : Nat) (x k s : UInt32) : Line :=
  let t := rotl (v.a + mix g v.b v.c v.d + x + k) s + v.e
  ⟨v.e, t, v.b, rotl v.c 10, v.d⟩

/-- Compresses the block at byte offset `start` into the state. -/
def compress (st : Array UInt32) (blk : ByteArray) (start : Nat) : Array UInt32 :=
  let x := fun (i : Nat) => wordAt blk (start + 4 * i)
  let v0 : Line := ⟨wordOf st 0, wordOf st 1, wordOf st 2, wordOf st 3, wordOf st 4⟩
  let l := (List.range 80).foldl (fun v j =>
    step v (j / 16) (x (leftOrder[j]?.getD 0)) (wordOf leftConstants (j / 16))
      (wordOf leftShift j)) v0
  let r := (List.range 80).foldl (fun v j =>
    step v (4 - j / 16) (x (rightOrder[j]?.getD 0)) (wordOf rightConstants (j / 16))
      (wordOf rightShift j)) v0
  #[wordOf st 1 + l.c + r.d, wordOf st 2 + l.d + r.e, wordOf st 3 + l.e + r.a,
    wordOf st 4 + l.a + r.b, wordOf st 0 + l.b + r.c]

/-- The message, the one bit, zeros, and the little-endian bit length. -/
def pad (m : ByteArray) : ByteArray :=
  let zeros := (119 - m.size % 64) % 64
  let len := ((List.range 8).map (fun i => ((8 * m.size) >>> (8 * i)).toUInt8)).toByteArray
  (m.push 0x80) ++ ⟨Array.replicate zeros 0⟩ ++ len

/-- The RIPEMD-160 digest of a byte string: the five state words, little-endian. -/
def hash (m : ByteArray) : ByteArray :=
  let p := pad m
  let st := (List.range (p.size / 64)).foldl (fun st k => compress st p (64 * k))
    #[0x67452301, 0xefcdab89, 0x98badcfe, 0x10325476, 0xc3d2e1f0]
  ⟨Array.ofFn (n := 20) fun i => (wordOf st (i.val / 4) >>> (8 * (i.val % 4)).toUInt32).toUInt8⟩

end BitcoinLight.Ripemd160
