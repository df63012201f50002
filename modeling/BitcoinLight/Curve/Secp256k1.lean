import BitcoinLight.Bytes.Word

set_option autoImplicit false

/-!
# The curve secp256k1

Points of y² = x³ + 7 over the prime field of `fieldPrime`, in affine coordinates with a
separate point at infinity. Inverses are taken by Fermat's little theorem and square roots by
raising to (p + 1) / 4, which is exact because p ≡ 3 (mod 4). Keys of 32 bytes name the point
with that x coordinate and an even y coordinate.
-/

namespace BitcoinLight.Secp256k1

def fieldPrime : Nat := 2 ^ 256 - 2 ^ 32 - 977

def groupOrder : Nat := 0xfffffffffffffffffffffffffffffffebaaedce6af48a03bbfd25e8cd0364141

/-- `b ^ e` modulo `m`, by squaring. -/
def powMod (m b e : Nat) : Nat :=
  if e = 0 then 1 % m
  else
    let r := powMod m (b * b % m) (e / 2)
    if e % 2 = 1 then r * b % m else r
termination_by e
decreasing_by omega

def sub (a b : Nat) : Nat := (a + fieldPrime - b % fieldPrime) % fieldPrime

def mul (a b : Nat) : Nat := a * b % fieldPrime

def inv (a : Nat) : Nat := powMod fieldPrime a (fieldPrime - 2)

/-- A point of the curve, or the point at infinity. -/
inductive Point where
  | infinity
  | affine (x y : Nat)
  deriving DecidableEq, Repr

def generator : Point :=
  .affine 0x79be667ef9dcbbac55a06295ce870b07029bfcdb2dce28d959f2815b16f81798
    0x483ada7726a3c4655da4fbfc0e1108a8fd17b448a68554199c47d08ffb10d4b8

def rhs (x : Nat) : Nat := (mul x (mul x x) + 7) % fieldPrime

def onCurve (x y : Nat) : Bool := x < fieldPrime && y < fieldPrime && mul y y == rhs x

/-- Twice a point. -/
def Point.double : Point → Point
  | .infinity => .infinity
  | .affine x y =>
    if y = 0 then .infinity
    else
      let l := mul (mul 3 (mul x x)) (inv (mul 2 y))
      let x3 := sub (mul l l) (mul 2 x)
      .affine x3 (sub (mul l (sub x x3)) y)

/-- The sum of two points. -/
def Point.add : Point → Point → Point
  | .infinity, q => q
  | p, .infinity => p
  | .affine x1 y1, .affine x2 y2 =>
    if x1 = x2 then
      if (y1 + y2) % fieldPrime = 0 then .infinity else (Point.affine x1 y1).double
    else
      let l := mul (sub y2 y1) (inv (sub x2 x1))
      let x3 := sub (sub (mul l l) x1) x2
      .affine x3 (sub (mul l (sub x1 x3)) y1)

def Point.smul (k : Nat) (p : Point) : Point :=
  (List.range 256).reverse.foldl
    (fun acc i => if k.testBit i then acc.double.add p else acc.double) .infinity

/-- The point with x coordinate `x` and an even y coordinate, if there is one. -/
def liftX (x : Nat) : Option Point :=
  if x < fieldPrime then
    let c := rhs x
    let y := powMod fieldPrime c ((fieldPrime + 1) / 4)
    if mul y y = c then some (.affine x (if y % 2 = 0 then y else fieldPrime - y)) else none
  else none

def natOfBytes (b : ByteArray) : Nat := b.foldl (fun acc x => acc * 256 + x.toNat) 0

def xOnlyPoint? (key : ByteArray) : Option Point :=
  if key.size = 32 then liftX (natOfBytes key) else none

def isUncompressedKey (key : ByteArray) : Bool :=
  key.size == 65 && key[0]? == some 4 &&
    onCurve (natOfBytes (key.extract 1 33)) (natOfBytes (key.extract 33 65))

end BitcoinLight.Secp256k1
