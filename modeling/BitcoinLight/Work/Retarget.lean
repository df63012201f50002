import BitcoinLight.Network

set_option autoImplicit false

/-!
# Proof of work and retargeting

A header proves its work when its target is usable, not easier than the network's limit, and its
hash read as a number is at most the target. At each multiple of the interval the target is
scaled by the time the last interval took, clamped to a factor of four either way; between them
it stays, except on test networks, where a late block may use the limit and the blocks after it
return to the last target that was not the limit.
-/

namespace BitcoinLight

open Work

/-- The header meets its own target; an unusable or too easy target is an error. -/
def checkProofOfWork (h : Header) (p : Params) : Except Error Bool :=
  let c := expandTarget h.bits
  if !c.valid || c.target > p.powLimit then .error (.invalidProofOfWork h.bits)
  else .ok (h.hash.toNatLE ≤ c.target)

/-- The compact target after an interval that started at `firstTime` and ended at `lastTime`
with target `lastBits`. A product beyond 256 bits gives the limit. -/
def calcNextWork (lastBits : UInt32) (firstTime lastTime : UInt32) (p : Params) : UInt32 :=
  if p.noRetargeting then lastBits
  else
    let span : Int := (lastTime.toNat : Int) - (firstTime.toNat : Int)
    let ts : Int := p.timespan
    let actual := max (ts / 4) (min span (ts * 4))
    let product := (expandTarget lastBits).target * actual.toNat
    let next := if product > maxU256 then p.powLimit else product / p.timespan
    compressTarget (min next p.powLimit)

/-- Walks back from a height while its header used the limit under the minimum-difficulty rule,
and returns the first target found that is not the limit. `fuel` bounds the heights visited. -/
def lastRealBits (ancestor : Nat → Option Header) (interval : Nat) (limitBits : UInt32) :
    Nat → Nat → UInt32 → Option UInt32
  | 0, _, bits => some bits
  | fuel + 1, height, bits =>
    if height > 0 ∧ height % interval ≠ 0 ∧ bits = limitBits then
      match ancestor (height - 1) with
      | some a => lastRealBits ancestor interval limitBits fuel (height - 1) a.bits
      | none => none
    else some bits

/-- The compact target a header after `tip` (at `tipHeight`) must carry; `ancestor` gives the
headers of the tip's chain by height. None when a header the rule needs is unknown. The next
height and the first height of the window are 32-bit, wrapping past the last. -/
def nextWorkRequired (tip : Header) (tipHeight : Nat) (next : Header) (p : Params)
    (ancestor : Nat → Option Header) : Option UInt32 :=
  let height := (tipHeight + 1) % 2 ^ 32
  if height % p.interval ≠ 0 then
    if p.allowMinDifficulty then
      if next.timestamp.toNat > min (tip.timestamp.toNat + 2 * p.spacing) 0xffffffff then
        some p.powLimitBits
      else lastRealBits ancestor p.interval p.powLimitBits (tipHeight + 1) tipHeight tip.bits
    else some tip.bits
  else if p.noRetargeting then some tip.bits
  else
    match ancestor ((height + 2 ^ 32 - p.interval) % 2 ^ 32) with
    | some first => some (calcNextWork tip.bits first.timestamp tip.timestamp p)
    | none => none

end BitcoinLight
