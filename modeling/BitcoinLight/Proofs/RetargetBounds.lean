import BitcoinLight.Proofs.CompactTarget
import BitcoinLight.Work.Retarget

set_option autoImplicit false

/-!
# Retargeting stays within 256 bits

At a retarget the last target is multiplied by the time the interval took, clamped to between a
quarter and four times the target timespan, before it is divided by the timespan. On every network
that retargets, a target within the network's limit times four timespans still fits in 256 bits,
on signet by a margin of about 4.6 million in 2^40. So the fallback to the limit for a product that
overflows is never taken, the new target is the scaled target capped at the limit, and after
encoding it is at most four times the old one.
-/

namespace BitcoinLight

open Work

/-- The time an interval took, clamped to between a quarter and four times the target
timespan. -/
def clampedSpan (p : Params) (firstTime lastTime : UInt32) : Nat :=
  (max ((p.timespan : Int) / 4)
    (min ((lastTime.toNat : Int) - (firstTime.toNat : Int)) ((p.timespan : Int) * 4))).toNat

theorem clampedSpan_le (p : Params) (firstTime lastTime : UInt32) :
    clampedSpan p firstTime lastTime ≤ 4 * p.timespan := by
  unfold clampedSpan
  omega

theorem timespan_pos (n : Network) : 0 < n.params.timespan := by
  cases n <;> decide

theorem powLimit_mul_le (n : Network) (hn : n.params.noRetargeting = false) :
    n.params.powLimit * (4 * n.params.timespan) ≤ maxU256 := by
  cases n with
  | mainnet => decide
  | testnet => decide
  | signet => decide
  | regtest => exact absurd hn (by decide)

theorem calcNextWork_of_le {p : Params} (hp : p.noRetargeting = false) {lastBits : UInt32}
    {firstTime lastTime : UInt32}
    (h : (expandTarget lastBits).target * clampedSpan p firstTime lastTime ≤ maxU256) :
    calcNextWork lastBits firstTime lastTime p =
      compressTarget (min ((expandTarget lastBits).target * clampedSpan p firstTime lastTime /
        p.timespan) p.powLimit) := by
  unfold calcNextWork
  rw [if_neg (by simp [hp])]
  dsimp only
  rw [← clampedSpan, if_neg (by omega)]

/-- A retarget from a target within the limit never overflows: the new target is the old one
scaled by the clamped interval over the timespan and capped at the limit, and encoded it is at
most the limit and at most four times the old target. -/
theorem retarget_product_fits (n : Network) (hn : n.params.noRetargeting = false)
    (lastBits firstTime lastTime : UInt32)
    (hT : (expandTarget lastBits).target ≤ n.params.powLimit) :
    let p := n.params
    let T := (expandTarget lastBits).target
    let a := clampedSpan p firstTime lastTime
    T * a ≤ maxU256 ∧
      calcNextWork lastBits firstTime lastTime p = compressTarget (min (T * a / p.timespan) p.powLimit) ∧
      (expandTarget (calcNextWork lastBits firstTime lastTime p)).target ≤ min p.powLimit (4 * T) := by
  intro p T a
  have ha : a ≤ 4 * p.timespan := clampedSpan_le p firstTime lastTime
  have hprod : T * a ≤ maxU256 :=
    calc T * a ≤ p.powLimit * (4 * p.timespan) := Nat.mul_le_mul hT ha
      _ ≤ maxU256 := powLimit_mul_le n hn
  have heq := calcNextWork_of_le hn hprod
  refine ⟨hprod, heq, ?_⟩
  rw [heq]
  -- the scaled target is at most four times the old one
  have hscaled : T * a / p.timespan ≤ 4 * T :=
    calc T * a / p.timespan ≤ T * (4 * p.timespan) / p.timespan :=
          Nat.div_le_div_right (Nat.mul_le_mul_left T ha)
      _ = 4 * T := by
          rw [← Nat.mul_assoc, Nat.mul_comm T 4, Nat.mul_div_cancel _ (timespan_pos n)]
  have hlimit : p.powLimit < 2 ^ 256 := by
    have hmul : p.powLimit * (4 * p.timespan) ≤ maxU256 := powLimit_mul_le n hn
    have h4 : p.powLimit ≤ p.powLimit * (4 * p.timespan) :=
      Nat.le_mul_of_pos_right _ (Nat.mul_pos (by decide) (timespan_pos n))
    unfold maxU256 at hmul
    omega
  calc (expandTarget (compressTarget (min (T * a / p.timespan) p.powLimit))).target
      ≤ min (T * a / p.timespan) p.powLimit :=
        expandTarget_compressTarget_le (lt_of_le_of_lt (min_le_right _ _) hlimit)
    _ ≤ min p.powLimit (4 * T) :=
        le_min (min_le_right _ _) ((min_le_left _ _).trans hscaled)

/-- The mainnet retarget at height 32256, after an interval of 1022578 seconds, inside the clamp. -/
theorem mainnet32256_retarget_fits :
    Network.mainnet.params.noRetargeting = false ∧
      (expandTarget 0x1d00ffff).target ≤ Network.mainnet.params.powLimit ∧
      let p := Network.mainnet.params
      let T := (expandTarget 0x1d00ffff).target
      let a := clampedSpan p 1261130161 1262152739
      T * a ≤ maxU256 ∧
        calcNextWork 0x1d00ffff 1261130161 1262152739 p =
          compressTarget (min (T * a / p.timespan) p.powLimit) ∧
        (expandTarget (calcNextWork 0x1d00ffff 1261130161 1262152739 p)).target ≤
          min p.powLimit (4 * T) :=
  ⟨by decide, by decide,
    retarget_product_fits .mainnet (by decide) 0x1d00ffff 1261130161 1262152739 (by decide)⟩

end BitcoinLight
