import BitcoinLight.Bytes.Word

set_option autoImplicit false

/-!
# Binary64 values, exactly

A finite binary64 magnitude is m · 2^e with m < 2^53 and e ≥ -1074; it is normal when
m ≥ 2^52 or e = -1074. Arithmetic here is exact rational arithmetic followed by one rounding to
the nearest such value, ties to the even mantissa, which is what IEEE 754 asks of one product or
quotient. The shortest decimal of a value is the decimal with the fewest significant digits
that rounds back to it, the nearest to it of those, and of two equally near the one whose last digit is even. A decimal
is written positionally or with an exponent, as a `DecimalLayout` decides.
-/

namespace BitcoinLight

/-- A binary64 value: a signed finite magnitude `mant · 2^exp`, or a signed infinity. -/
inductive Binary64 where
  | finite (negative : Bool) (mant : Nat) (exp : Int)
  | infinite (negative : Bool)
  deriving DecidableEq, Repr

namespace Binary64

def scaled (num den : Nat) (e : Int) : Nat × Nat :=
  if e ≥ 0 then (num, den * 2 ^ e.toNat) else (num * 2 ^ (-e).toNat, den)

/-- The magnitude nearest to `num / den`, as mantissa and exponent, or none past the largest
finite value. The exponent is the least that keeps the mantissa below 2^53, and at least -1074. -/
def roundRat (num den : Nat) : Option (Nat × Int) :=
  if num = 0 ∨ den = 0 then some (0, 0)
  else
    let e0 : Int := (num.log2 : Int) - (den.log2 : Int) - 52
    let (n0, d0) := scaled num den e0
    let e1 := if n0 / d0 < 2 ^ 52 then e0 - 1 else e0
    let e := max e1 (-1074)
    let (n, d) := scaled num den e
    let q := n / d
    let r := n % d
    let q := if 2 * r > d ∨ (2 * r = d ∧ q % 2 = 1) then q + 1 else q
    let (q, e) := if q = 2 ^ 53 then (2 ^ 52, e + 1) else (q, e)
    if e > 971 then none else some (q, e)

/-- The value nearest to `num / den` with the given sign. -/
def ofRat (negative : Bool) (num den : Nat) : Binary64 :=
  match roundRat num den with
  | some (m, e) => .finite negative m e
  | none => .infinite negative

def ofNat (n : Nat) : Binary64 := ofRat false n 1

def pow10 (k : Nat) : Binary64 := ofNat (10 ^ k)

def neg : Binary64 → Binary64
  | .finite s m e => .finite (!s) m e
  | .infinite s => .infinite (!s)

def isZero : Binary64 → Bool
  | .finite _ m _ => m == 0
  | .infinite _ => false

def isInfinite : Binary64 → Bool
  | .finite .. => false
  | .infinite _ => true

/-- The rounded product; an infinite factor gives infinity. -/
def mul : Binary64 → Binary64 → Binary64
  | .finite s m e, .finite t n f =>
    let (num, den) := scaled (m * n) 1 (-(e + f))
    ofRat (s != t) num den
  | a, b =>
    let sa := match a with | .finite s .. | .infinite s => s
    let sb := match b with | .finite s .. | .infinite s => s
    .infinite (sa != sb)

/-- The rounded quotient of finite values by a non-zero finite value. -/
def div : Binary64 → Binary64 → Binary64
  | .finite s m e, .finite t n f =>
    let (num, den) := scaled m n (-(e - f))
    ofRat (s != t) num den
  | a, _ => a

/-! ## Shortest decimals -/

def cmpScaled (a : Nat) (i : Int) (n : Nat) (j : Int) : Ordering :=
  compare (a * 10 ^ i.toNat * 2 ^ (-j).toNat) (n * 2 ^ j.toNat * 10 ^ (-i).toNat)

/-- `d · 10^k` rounds to the positive value `m · 2^e`: it lies between the midpoints to the
neighbours, which count when `m` is even. Below a power of two the lower neighbour is half as
far as the upper. -/
def readsBack (m : Nat) (e : Int) (d : Nat) (k : Int) : Bool :=
  let narrow := m == 2 ^ 52 && e > -1074
  let lo := if narrow then 4 * m - 1 else 4 * m - 2
  let hi := 4 * m + 2
  let incl := m % 2 == 0
  let cl := cmpScaled d k lo (e - 2)
  let ch := cmpScaled d k hi (e - 2)
  (cl == .gt || (incl && cl == .eq)) && (ch == .lt || (incl && ch == .eq))

/-- The exponent `t` with 10^t ≤ m · 2^e < 10^(t+1), for a positive value. -/
def decimalExponent (m : Nat) (e : Int) : Int :=
  if e ≥ 0 then ((toString (m * 2 ^ e.toNat)).length : Int) - 1
  else
    let den := 2 ^ (-e).toNat
    if m ≥ den then ((toString (m / den)).length : Int) - 1
    else
      -- the least j ≥ 1 with m · 10^j ≥ den; 10^j ≤ den < 2^1075 bounds j by 324
      let j := ((List.range 330).find? fun j => m * 10 ^ (j + 1) ≥ den).getD 329
      (-1 : Int) - j

/-- The candidate of `n` significant digits for the positive value `m · 2^e`, if one reads
back: of the two on the grid around the value, the nearer, and of two as near the even one. -/
def candidate (m : Nat) (e : Int) (n : Nat) : Option (Nat × Int) :=
  let k := decimalExponent m e - n + 1
  -- value / 10^k = num / den
  let num := m * 2 ^ e.toNat * 10 ^ (-k).toNat
  let den := 2 ^ (-e).toNat * 10 ^ k.toNat
  let lo := num / den
  let hi := lo + 1
  if num % den = 0 then some (lo, k)
  else
    let okLo := readsBack m e lo k
    let okHi := readsBack m e hi k
    if okLo && okHi then
      let below := num - lo * den
      let above := hi * den - num
      if below < above ∨ (below = above ∧ lo % 2 = 0) then some (lo, k) else some (hi, k)
    else if okLo then some (lo, k)
    else if okHi then some (hi, k)
    else none

/-- The shortest decimal `d · 10^k` of the positive value `m · 2^e`, with `d` free of trailing
zeros. Seventeen digits always read back. -/
def shortest (m : Nat) (e : Int) : Nat × Int :=
  let found := ((List.range 17).map (· + 1)).findSome? (candidate m e)
  let (d, k) := found.getD (m, 0)
  strip d k 20
where
  /-- Moves trailing zeros of `d` into the exponent. -/
  strip (d : Nat) (k : Int) : Nat → Nat × Int
    | 0 => (d, k)
    | fuel + 1 => if d ≠ 0 ∧ d % 10 = 0 then strip (d / 10) (k + 1) fuel else (d, k)

/-- How a decimal is written: positionally when the exponent of its leading digit lies from
`minPositional` to `maxPositional`, otherwise with an exponent. -/
structure DecimalLayout where
  /-- The least exponent of the leading digit that is written positionally. -/
  minPositional : Int
  /-- The greatest exponent of the leading digit that is written positionally. -/
  maxPositional : Int
  /-- A whole number written positionally ends in ".0". -/
  pointZero : Bool
  /-- A non-negative exponent is written with "+". -/
  plusExponent : Bool

/-- Positional text of `d · 10^k`: a point where there are fraction digits, and ".0" after a
whole number when `pointZero` asks for it. -/
def positional (d : Nat) (k : Int) (pointZero : Bool) : String :=
  let ds := toString d
  if k ≥ 0 then
    ds ++ String.ofList (List.replicate k.toNat '0') ++ (if pointZero then ".0" else "")
  else
    let f := (-k).toNat
    if ds.length > f then
      String.ofList (ds.toList.take (ds.length - f)) ++ "." ++ String.ofList (ds.toList.drop (ds.length - f))
    else "0." ++ String.ofList (List.replicate (f - ds.length) '0') ++ ds

/-- Text of `d · 10^k` with an exponent: the leading digit, a point and the other digits if
there are any, "e", and the exponent of the leading digit, with "+" before a non-negative one
when `plus` asks for it. -/
def scientific (d : Nat) (k : Int) (plus : Bool) : String :=
  let ds := (toString d).toList
  let lead : Int := k + ds.length - 1
  let mantissa := match ds with
    | c :: rest@(_ :: _) => c.toString ++ "." ++ String.ofList rest
    | _ => String.ofList ds
  let sign := if lead < 0 then "-" else if plus then "+" else ""
  mantissa ++ "e" ++ sign ++ toString lead.natAbs

/-- The shortest decimal text of a value in a layout, with "-" for a negative sign (also of zero)
and "inf" for infinity. -/
def render (layout : DecimalLayout) : Binary64 → String
  | .infinite s => (if s then "-" else "") ++ "inf"
  | .finite s m e =>
    let sign := if s then "-" else ""
    if m = 0 then sign ++ positional 0 0 layout.pointZero
    else
      let (d, k) := shortest m e
      let lead : Int := k + (toString d).length - 1
      if layout.minPositional ≤ lead ∧ lead ≤ layout.maxPositional then
        sign ++ positional d k layout.pointZero
      else sign ++ scientific d k layout.plusExponent

end Binary64

end BitcoinLight
