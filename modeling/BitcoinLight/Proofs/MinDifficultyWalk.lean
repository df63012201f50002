import Mathlib
import BitcoinLight.Work.Retarget

set_option autoImplicit false

/-!
# The walk back to the last real target

On a network that allows minimum-difficulty blocks, a header between retargets that comes on
time must carry the target of the last block not mined at the limit. The rule walks back from the
tip while the block at hand is above genesis, off a retarget height, and carries the limit; it
answers the target of the first block that fails one of these, and nothing when a header on the
way is unknown.

The main statement takes the look-up of the tip's chain to give the chain's headers at the
heights of a set `D` and nothing elsewhere. The rule then answers the target at the highest
height at or below the tip where the walk stops (`lastRealHeight`) when `D` holds every height
from there up to below the tip, and nothing otherwise. The walk never looks below the last
retarget height, so it goes back at most `tipHeight % interval` heights.
-/

namespace BitcoinLight

section Stops

variable (interval : Nat) (limitBits : UInt32) (chain : Nat → Header)

/-- The walk back stops at height `k` of a chain: at genesis, at a retarget height, or at a block
whose target is not the limit. -/
def WalkStops (k : Nat) : Prop :=
  k = 0 ∨ k % interval = 0 ∨ (chain k).bits ≠ limitBits

instance (k : Nat) : Decidable (WalkStops interval limitBits chain k) :=
  inferInstanceAs (Decidable (k = 0 ∨ k % interval = 0 ∨ (chain k).bits ≠ limitBits))

def lastRealHeight (h : Nat) : Nat :=
  Nat.findGreatest (WalkStops interval limitBits chain) h

end Stops

section Height

variable {interval : Nat} {limitBits : UInt32} {chain : Nat → Header}

theorem lastRealHeight_le (h : Nat) : lastRealHeight interval limitBits chain h ≤ h :=
  Nat.findGreatest_le h

theorem lastRealHeight_of_stops {h : Nat} (hs : WalkStops interval limitBits chain h) :
    lastRealHeight interval limitBits chain h = h :=
  Nat.findGreatest_eq hs

theorem lastRealHeight_succ {h : Nat} (hs : ¬WalkStops interval limitBits chain (h + 1)) :
    lastRealHeight interval limitBits chain (h + 1) = lastRealHeight interval limitBits chain h :=
  Nat.findGreatest_of_not hs

theorem sub_mod_mod_eq_zero (h interval : Nat) : (h - h % interval) % interval = 0 :=
  Nat.sub_mod_eq_zero_of_mod_eq (Nat.mod_mod h interval).symm

theorem sub_mod_le_lastRealHeight (h : Nat) :
    h - h % interval ≤ lastRealHeight interval limitBits chain h :=
  Nat.le_findGreatest (Nat.sub_le h _) (Or.inr (Or.inl (sub_mod_mod_eq_zero h interval)))

theorem not_walkStops_iff {h : Nat} :
    ¬WalkStops interval limitBits chain h ↔
      h > 0 ∧ h % interval ≠ 0 ∧ (chain h).bits = limitBits := by
  unfold WalkStops
  constructor
  · intro hs
    exact ⟨Nat.pos_of_ne_zero fun h0 => hs (.inl h0), fun hm => hs (.inr (.inl hm)),
      not_not.mp fun hb => hs (.inr (.inr hb))⟩
  · rintro ⟨h0, hm, hb⟩ (h0' | hm' | hb')
    · omega
    · exact hm hm'
    · exact hb' hb

end Height

/-! ## One step of the walk -/

section Steps

variable {ancestor : Nat → Option Header} {interval : Nat} {limitBits : UInt32} {fuel h : Nat}
  {bits : UInt32}

theorem lastRealBits_stop (hc : ¬(h > 0 ∧ h % interval ≠ 0 ∧ bits = limitBits)) :
    lastRealBits ancestor interval limitBits (fuel + 1) h bits = some bits := by
  rw [lastRealBits, if_neg hc]

theorem lastRealBits_step (hc : h > 0 ∧ h % interval ≠ 0 ∧ bits = limitBits) :
    lastRealBits ancestor interval limitBits (fuel + 1) h bits =
      (ancestor (h - 1)).bind fun a => lastRealBits ancestor interval limitBits fuel (h - 1) a.bits := by
  rw [lastRealBits, if_pos hc]
  cases ancestor (h - 1) <;> rfl

theorem lastRealBits_congr {ancestor' : Nat → Option Header} {w : Nat} (hw : w % interval = 0) :
    ∀ fuel h bits, w ≤ h → (∀ i, w ≤ i → i < h → ancestor' i = ancestor i) →
      lastRealBits ancestor' interval limitBits fuel h bits =
        lastRealBits ancestor interval limitBits fuel h bits
  | 0, _, _, _, _ => rfl
  | fuel + 1, h, bits, hwh, hag => by
    by_cases hc : h > 0 ∧ h % interval ≠ 0 ∧ bits = limitBits
    · -- the walk goes below `h`, which is not `w` since `w` is a retarget height
      have hwh' : w ≤ h - 1 := by
        have hne : w ≠ h := fun he => hc.2.1 (he ▸ hw)
        omega
      rw [lastRealBits_step hc, lastRealBits_step hc, hag (h - 1) hwh' (by omega)]
      cases ancestor (h - 1) with
      | none => rfl
      | some a =>
        rw [Option.bind_some, Option.bind_some]
        exact lastRealBits_congr hw fuel (h - 1) a.bits hwh' fun i hi hi' => hag i hi (by omega)
    · rw [lastRealBits_stop hc, lastRealBits_stop hc]

end Steps

/-! ## The walk along a chain -/

section Chain

variable {interval : Nat} {limitBits : UInt32} {chain : Nat → Header} {D : Set Nat}
  {ancestor : Nat → Option Header}

theorem lastRealBits_of_walkStops {h fuel : Nat} (hs : WalkStops interval limitBits chain h) :
    lastRealBits ancestor interval limitBits (fuel + 1) h (chain h).bits = some (chain h).bits :=
  lastRealBits_stop (not_walkStops_iff.not.mp (not_not.mpr hs))

open Classical in
/-- The walk back from height `h` of a chain, whose headers the look-up gives at the heights of
`D` and nowhere else, answers the target at `lastRealHeight` when `D` holds every height from
there up to below `h`, and nothing otherwise, given a step more than the heights it goes down. -/
theorem lastRealBits_of_chain (hD : ∀ i ∈ D, ancestor i = some (chain i))
    (hnD : ∀ i ∉ D, ancestor i = none) :
    ∀ h fuel, h - lastRealHeight interval limitBits chain h < fuel →
      lastRealBits ancestor interval limitBits fuel h (chain h).bits =
        if ∀ i, lastRealHeight interval limitBits chain h ≤ i → i < h → i ∈ D then
          some (chain (lastRealHeight interval limitBits chain h)).bits
        else none := by
  -- at a height where the walk stops it answers that height's target at once
  have hstop : ∀ h fuel, WalkStops interval limitBits chain h →
      lastRealBits ancestor interval limitBits (fuel + 1) h (chain h).bits =
        if ∀ i, lastRealHeight interval limitBits chain h ≤ i → i < h → i ∈ D then
          some (chain (lastRealHeight interval limitBits chain h)).bits
        else none := by
    intro h fuel hs
    rw [lastRealBits_of_walkStops hs, lastRealHeight_of_stops hs,
      if_pos fun i hi hi' => absurd hi' (Nat.not_lt.mpr hi)]
  intro h
  induction h with
  | zero =>
    intro fuel hfuel
    obtain ⟨fuel, rfl⟩ := Nat.exists_eq_add_one.mpr hfuel
    exact hstop 0 fuel (.inl rfl)
  | succ h ih =>
    intro fuel hfuel
    obtain ⟨fuel, rfl⟩ := Nat.exists_eq_add_one.mpr (Nat.lt_of_le_of_lt (Nat.zero_le _) hfuel)
    by_cases hs : WalkStops interval limitBits chain (h + 1)
    · exact hstop (h + 1) fuel hs
    -- the walk goes on to height `h`, and stops where it would from there
    have hk := lastRealHeight_succ hs
    have hkh : lastRealHeight interval limitBits chain h ≤ h := lastRealHeight_le h
    rw [lastRealBits_step (not_walkStops_iff.mp hs), Nat.add_sub_cancel, hk]
    rw [hk] at hfuel
    by_cases hmem : h ∈ D
    · rw [hD h hmem, Option.bind_some, ih fuel (by omega)]
      have hiff : (∀ i, lastRealHeight interval limitBits chain h ≤ i → i < h → i ∈ D) ↔
          (∀ i, lastRealHeight interval limitBits chain h ≤ i → i < h + 1 → i ∈ D) := by
        constructor
        · intro hall i hi hi'
          rcases Nat.lt_succ_iff_lt_or_eq.mp hi' with hlt | rfl
          · exact hall i hi hlt
          · exact hmem
        · intro hall i hi hi'
          exact hall i hi (Nat.lt_succ_of_lt hi')
      simp only [hiff]
    · -- the look-up of height `h` fails, and `h` is one of the heights the walk needs
      rw [hnD h hmem, Option.bind_none, if_neg fun hall => hmem (hall h hkh (Nat.lt_succ_self h))]

end Chain

theorem nextWorkRequired_of_on_time {tip next : Header} {tipHeight : Nat} {p : Params}
    {ancestor : Nat → Option Header} (hmin : p.allowMinDifficulty = true)
    (hmod : (tipHeight + 1) % 2 ^ 32 % p.interval ≠ 0)
    (htime : next.timestamp.toNat ≤ min (tip.timestamp.toNat + 2 * p.spacing) 0xffffffff) :
    nextWorkRequired tip tipHeight next p ancestor =
      lastRealBits ancestor p.interval p.powLimitBits (tipHeight + 1) tipHeight tip.bits := by
  have hmod' : (tipHeight + 1) % 4294967296 % p.interval ≠ 0 := hmod
  simp [nextWorkRequired, hmod', hmin, Nat.not_lt.mpr htime]

/-- The minimum-difficulty walk finds the last real target. On a network that allows
minimum-difficulty blocks, take a tip at `tipHeight` of a chain, below the last 32-bit height, a
header after it off a retarget height and no later than twice the block spacing after the tip,
and a look-up that gives the
chain's headers at the heights of a set `D` and nothing elsewhere. The walk stops at
`lastRealHeight`, the highest height at or below the tip that is genesis, a retarget height or a
block whose target is not the limit; it lies at most `tipHeight % interval` heights below the
tip, and the rule looks up no header further down. The rule answers the target at that height
when `D` holds every height from it up to below the tip, and nothing when `D` misses one. -/
theorem nextWorkRequired_walks_back_to_real_target {p : Params} {tip next : Header}
    {tipHeight : Nat} {chain : Nat → Header} {D : Set Nat} {ancestor : Nat → Option Header}
    (hmin : p.allowMinDifficulty = true) (h32 : tipHeight + 1 < 2 ^ 32)
    (hmod : (tipHeight + 1) % p.interval ≠ 0)
    (htime : next.timestamp.toNat ≤ min (tip.timestamp.toNat + 2 * p.spacing) 0xffffffff)
    (htip : chain tipHeight = tip) (hD : ∀ i ∈ D, ancestor i = some (chain i))
    (hnD : ∀ i ∉ D, ancestor i = none) :
    tipHeight - lastRealHeight p.interval p.powLimitBits chain tipHeight ≤
        tipHeight % p.interval ∧
      (∀ ancestor' : Nat → Option Header,
        (∀ i, tipHeight - tipHeight % p.interval ≤ i → i < tipHeight → ancestor' i = ancestor i) →
          nextWorkRequired tip tipHeight next p ancestor' =
            nextWorkRequired tip tipHeight next p ancestor) ∧
      ((∀ i, lastRealHeight p.interval p.powLimitBits chain tipHeight ≤ i → i < tipHeight →
          i ∈ D) →
        nextWorkRequired tip tipHeight next p ancestor =
          some (chain (lastRealHeight p.interval p.powLimitBits chain tipHeight)).bits) ∧
      ((∃ i, lastRealHeight p.interval p.powLimitBits chain tipHeight ≤ i ∧ i < tipHeight ∧
          i ∉ D) →
        nextWorkRequired tip tipHeight next p ancestor = none) := by
  -- the next height fits in 32 bits, so the rule sees it unwrapped
  have hmod32 : (tipHeight + 1) % 2 ^ 32 % p.interval ≠ 0 := by rwa [Nat.mod_eq_of_lt h32]
  have hwin : tipHeight - tipHeight % p.interval ≤
      lastRealHeight p.interval p.powLimitBits chain tipHeight :=
    sub_mod_le_lastRealHeight tipHeight
  -- with a step more than the tip's height the walk never runs short
  have hrun := lastRealBits_of_chain hD hnD tipHeight (tipHeight + 1)
    (Nat.lt_succ_of_le (Nat.sub_le tipHeight (lastRealHeight p.interval p.powLimitBits chain tipHeight)))
  rw [htip] at hrun
  refine ⟨by omega, fun ancestor' hag => ?_, fun hall => ?_, fun ⟨i, hi, hi', hiD⟩ => ?_⟩
  · rw [nextWorkRequired_of_on_time hmin hmod32 htime,
      nextWorkRequired_of_on_time hmin hmod32 htime]
    exact lastRealBits_congr (sub_mod_mod_eq_zero tipHeight p.interval) _ _ _
      (Nat.sub_le _ _) hag
  · rw [nextWorkRequired_of_on_time hmin hmod32 htime, hrun, if_pos hall]
  · rw [nextWorkRequired_of_on_time hmin hmod32 htime, hrun,
      if_neg fun hall => hiD (hall i hi hi')]

def testnetRealHeader : Header := { Network.testnet.params.genesis with bits := 0x1c0ffff0 }

def testnetLimitHeader : Header := { testnetRealHeader with bits := 0x1d00ffff }

def testnetOnTimeHeader : Header :=
  { testnetLimitHeader with timestamp := testnetLimitHeader.timestamp + 600 }

def testnetChain (h : Nat) : Header := if h = 11 then testnetLimitHeader else testnetRealHeader

def testnetLookup (h : Nat) : Option Header := if h = 10 then some testnetRealHeader else none

/-- On testnet, a header on time after a limit block at height 11 whose parent alone is known. -/
theorem testnet_limit_tip_walks_back :
    Network.testnet.params.allowMinDifficulty = true ∧ 11 + 1 < 2 ^ 32 ∧
    (11 + 1) % Network.testnet.params.interval ≠ 0 ∧
    testnetOnTimeHeader.timestamp.toNat ≤
      min (testnetLimitHeader.timestamp.toNat + 2 * Network.testnet.params.spacing) 0xffffffff ∧
    testnetChain 11 = testnetLimitHeader ∧
    (∀ i ∈ ({10} : Set Nat), testnetLookup i = some (testnetChain i)) ∧
    (∀ i ∉ ({10} : Set Nat), testnetLookup i = none) ∧
    (11 - lastRealHeight Network.testnet.params.interval Network.testnet.params.powLimitBits
        testnetChain 11 ≤ 11 % Network.testnet.params.interval ∧
      (∀ ancestor' : Nat → Option Header,
        (∀ i, 11 - 11 % Network.testnet.params.interval ≤ i → i < 11 →
          ancestor' i = testnetLookup i) →
          nextWorkRequired testnetLimitHeader 11 testnetOnTimeHeader Network.testnet.params
              ancestor' =
            nextWorkRequired testnetLimitHeader 11 testnetOnTimeHeader Network.testnet.params
              testnetLookup) ∧
      ((∀ i, lastRealHeight Network.testnet.params.interval Network.testnet.params.powLimitBits
          testnetChain 11 ≤ i → i < 11 → i ∈ ({10} : Set Nat)) →
        nextWorkRequired testnetLimitHeader 11 testnetOnTimeHeader Network.testnet.params
            testnetLookup =
          some (testnetChain (lastRealHeight Network.testnet.params.interval
            Network.testnet.params.powLimitBits testnetChain 11)).bits) ∧
      ((∃ i, lastRealHeight Network.testnet.params.interval Network.testnet.params.powLimitBits
          testnetChain 11 ≤ i ∧ i < 11 ∧ i ∉ ({10} : Set Nat)) →
        nextWorkRequired testnetLimitHeader 11 testnetOnTimeHeader Network.testnet.params
          testnetLookup = none)) := by
  have hmin : Network.testnet.params.allowMinDifficulty = true := rfl
  have hmod : (11 + 1) % Network.testnet.params.interval ≠ 0 := by decide
  have htime : testnetOnTimeHeader.timestamp.toNat ≤
      min (testnetLimitHeader.timestamp.toNat + 2 * Network.testnet.params.spacing) 0xffffffff := by
    decide
  have htip : testnetChain 11 = testnetLimitHeader := rfl
  have hD : ∀ i ∈ ({10} : Set Nat), testnetLookup i = some (testnetChain i) := by
    intro i hi
    rw [Set.mem_singleton_iff] at hi
    subst hi
    rfl
  have hnD : ∀ i ∉ ({10} : Set Nat), testnetLookup i = none := by
    intro i hi
    rw [Set.mem_singleton_iff] at hi
    simp [testnetLookup, hi]
  have h32 : 11 + 1 < 2 ^ 32 := by decide
  exact ⟨hmin, h32, hmod, htime, htip, hD, hnD,
    nextWorkRequired_walks_back_to_real_target hmin h32 hmod htime htip hD hnD⟩

end BitcoinLight
