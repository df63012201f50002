import BitcoinLight.Bytes.Word

set_option autoImplicit false

/-!
# SHA-256

The hash of FIPS 180-4 over byte strings. The message is padded with a one bit, zeros and its bit
length to whole 64-byte blocks; each block is expanded to 64 schedule words and compressed into
the eight-word state, which is written big-endian as the 32-byte digest.
-/

namespace BitcoinLight.Sha256

/-- The 64 round constants: fractional parts of the cube roots of the first 64 primes. -/
def roundConstants : Array UInt32 := #[
  0x428a2f98, 0x71374491, 0xb5c0fbcf, 0xe9b5dba5, 0x3956c25b, 0x59f111f1, 0x923f82a4, 0xab1c5ed5,
  0xd807aa98, 0x12835b01, 0x243185be, 0x550c7dc3, 0x72be5d74, 0x80deb1fe, 0x9bdc06a7, 0xc19bf174,
  0xe49b69c1, 0xefbe4786, 0x0fc19dc6, 0x240ca1cc, 0x2de92c6f, 0x4a7484aa, 0x5cb0a9dc, 0x76f988da,
  0x983e5152, 0xa831c66d, 0xb00327c8, 0xbf597fc7, 0xc6e00bf3, 0xd5a79147, 0x06ca6351, 0x14292967,
  0x27b70a85, 0x2e1b2138, 0x4d2c6dfc, 0x53380d13, 0x650a7354, 0x766a0abb, 0x81c2c92e, 0x92722c85,
  0xa2bfe8a1, 0xa81a664b, 0xc24b8b70, 0xc76c51a3, 0xd192e819, 0xd6990624, 0xf40e3585, 0x106aa070,
  0x19a4c116, 0x1e376c08, 0x2748774c, 0x34b0bcb5, 0x391c0cb3, 0x4ed8aa4a, 0x5b9cca4f, 0x682e6ff3,
  0x748f82ee, 0x78a5636f, 0x84c87814, 0x8cc70208, 0x90befffa, 0xa4506ceb, 0xbef9a3f7, 0xc67178f2]

def initialState : Array UInt32 := #[
  0x6a09e667, 0xbb67ae85, 0x3c6ef372, 0xa54ff53a, 0x510e527f, 0x9b05688c, 0x1f83d9ab, 0x5be0cd19]

@[inline] def rotr (x : UInt32) (n : UInt32) : UInt32 := (x >>> n) ||| (x <<< (32 - n))

@[inline] def byteAt (b : ByteArray) (i : Nat) : UInt8 :=
  if h : i < b.size then b[i] else 0

def wordAt (b : ByteArray) (i : Nat) : UInt32 :=
  ((byteAt b i).toUInt32 <<< 24) ||| ((byteAt b (i + 1)).toUInt32 <<< 16) |||
    ((byteAt b (i + 2)).toUInt32 <<< 8) ||| (byteAt b (i + 3)).toUInt32

@[inline] def wordOf (a : Array UInt32) (i : Nat) : UInt32 := a[i]?.getD 0

/-- The 64 schedule words of the block at byte offset `start`. -/
def schedule (b : ByteArray) (start : Nat) : Array UInt32 :=
  let first := (List.range 16).foldl (fun (w : Array UInt32) i => w.push (wordAt b (start + 4 * i))) #[]
  (List.range 48).foldl (fun (w : Array UInt32) k =>
    let i := k + 16
    let x := wordOf w (i - 15)
    let y := wordOf w (i - 2)
    let s0 := rotr x 7 ^^^ rotr x 18 ^^^ (x >>> 3)
    let s1 := rotr y 17 ^^^ rotr y 19 ^^^ (y >>> 10)
    w.push (wordOf w (i - 16) + s0 + wordOf w (i - 7) + s1)) first

/-- The eight working variables of a compression. -/
structure Working where
  a : UInt32
  b : UInt32
  c : UInt32
  d : UInt32
  e : UInt32
  f : UInt32
  g : UInt32
  h : UInt32

/-- One round with schedule word `w` and round constant `k`. -/
@[inline] def round (v : Working) (k w : UInt32) : Working :=
  let s1 := rotr v.e 6 ^^^ rotr v.e 11 ^^^ rotr v.e 25
  let ch := (v.e &&& v.f) ^^^ (~~~v.e &&& v.g)
  let t1 := v.h + s1 + ch + k + w
  let s0 := rotr v.a 2 ^^^ rotr v.a 13 ^^^ rotr v.a 22
  let maj := (v.a &&& v.b) ^^^ (v.a &&& v.c) ^^^ (v.b &&& v.c)
  let t2 := s0 + maj
  ⟨t1 + t2, v.a, v.b, v.c, v.d + t1, v.e, v.f, v.g⟩

/-- Compresses the block at byte offset `start` into the state. -/
def compress (st : Array UInt32) (b : ByteArray) (start : Nat) : Array UInt32 :=
  let w := schedule b start
  let v0 : Working := ⟨wordOf st 0, wordOf st 1, wordOf st 2, wordOf st 3,
    wordOf st 4, wordOf st 5, wordOf st 6, wordOf st 7⟩
  let v := (List.range 64).foldl (fun v i => round v (wordOf roundConstants i) (wordOf w i)) v0
  #[wordOf st 0 + v.a, wordOf st 1 + v.b, wordOf st 2 + v.c, wordOf st 3 + v.d,
    wordOf st 4 + v.e, wordOf st 5 + v.f, wordOf st 6 + v.g, wordOf st 7 + v.h]

def lengthBytes (n : Nat) : ByteArray :=
  ((List.range 8).reverse.map (fun i => (n >>> (8 * i)).toUInt8)).toByteArray

def pad (m : ByteArray) : ByteArray :=
  let zeros := (119 - m.size % 64) % 64
  (m.push 0x80) ++ ⟨Array.replicate zeros 0⟩ ++ lengthBytes (8 * m.size)

def digestBytes (st : Array UInt32) : ByteArray :=
  ⟨Array.ofFn (n := 32) fun i => (wordOf st (i.val / 4) >>> (8 * (3 - (i.val % 4)).toUInt32)).toUInt8⟩

def hash (m : ByteArray) : ByteArray :=
  let p := pad m
  digestBytes ((List.range (p.size / 64)).foldl (fun st k => compress st p (64 * k)) initialState)

theorem digestBytes_size (st : Array UInt32) : (digestBytes st).size = 32 :=
  Array.size_ofFn

@[simp] theorem hash_size (m : ByteArray) : (hash m).size = 32 :=
  digestBytes_size _

end BitcoinLight.Sha256
