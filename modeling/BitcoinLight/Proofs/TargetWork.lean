import BitcoinLight.Proofs.CompactTarget

set_option autoImplicit false

/-!
# What a compact word stands for, and the work of its target

A compact word with size byte `e` and mantissa `m` stands for ⌊m · 256^(e − 3)⌋, which is
`compactValue e m`. Decoding is exact: the word overflows exactly when that value needs more than
256 bits, and otherwise decodes to it, so no shift wraps, not even a shift of a zero mantissa by
256 bits or more. A value that fits is never 2^256 − 1, so the target plus one fits too, and the
complement form of the work, (2^256 − 1 − t) / (t + 1) + 1, is ⌊2^256 / (t + 1)⌋, which falls as
the target grows.
-/

namespace BitcoinLight.Work

/-! ## The value of a compact word -/

theorem compactValue_eq_floor (s m : Nat) :
    (compactValue s m : ℤ) = ⌊(m : ℚ) * (256 : ℚ) ^ ((s : ℤ) - 3)⌋ := by
  unfold compactValue
  split
  · rename_i hs
    -- a negative exponent divides by the bytes cut off
    have he : (s : ℤ) - 3 = -((3 - s : ℕ) : ℤ) := by omega
    rw [he, zpow_neg, zpow_natCast, ← div_eq_mul_inv]
    have h := Rat.floor_natCast_div_natCast m (256 ^ (3 - s))
    push_cast at h
    rw [h]
    norm_cast
  · rename_i hs
    have he : (s : ℤ) - 3 = ((s - 3 : ℕ) : ℤ) := by omega
    rw [he, zpow_natCast]
    exact_mod_cast (Int.floor_natCast (R := ℚ) (m * 256 ^ (s - 3))).symm

theorem two_pow_256_le_mul_iff {m k : Nat} (hk : k ≤ 32) :
    2 ^ 256 ≤ m * 256 ^ k ↔ 256 ^ (32 - k) ≤ m := by
  have h : 2 ^ 256 = 256 ^ (32 - k) * 256 ^ k := by
    rw [← Nat.pow_add, Nat.sub_add_cancel hk, pow_256]
  rw [h]
  exact Nat.mul_le_mul_right_iff (Nat.pow_pos (by decide))

/-- The overflow test of `expandTarget` says exactly that the value needs more than 256 bits:
a non-zero mantissa with more than 34 bytes, or with a second byte above 33, or a third above
32. -/
theorem overflow_iff {e m : Nat} (hm : m < 2 ^ 23) :
    (m ≠ 0 ∧ (34 < e ∨ 0xff < m ∧ 33 < e ∨ 0xffff < m ∧ 32 < e)) ↔ 2 ^ 256 ≤ compactValue e m := by
  unfold compactValue
  split
  · -- three bytes or fewer: the value is at most the mantissa
    rename_i he
    have : m / 256 ^ (3 - e) < 2 ^ 256 := lt_of_le_of_lt (Nat.div_le_self _ _) (by omega)
    omega
  · rename_i he
    by_cases h35 : 35 ≤ e
    · -- 32 bytes or more below the mantissa
      have hk : 256 ^ 32 ≤ 256 ^ (e - 3) := Nat.pow_le_pow_right (by decide) (by omega)
      have h32 : (256 : Nat) ^ 32 = 2 ^ 256 := pow_256 32
      constructor
      · rintro ⟨hm0, -⟩
        calc 2 ^ 256 = 1 * 256 ^ 32 := by rw [h32, Nat.one_mul]
          _ ≤ m * 256 ^ (e - 3) := Nat.mul_le_mul (by omega) hk
      · intro h
        refine ⟨fun hm0 => ?_, .inl (by omega)⟩
        rw [hm0, Nat.zero_mul] at h
        exact absurd h (by decide)
    · rw [two_pow_256_le_mul_iff (by omega)]
      rcases (show e = 34 ∨ e = 33 ∨ e ≤ 32 by omega) with rfl | rfl | he32
      · omega
      · omega
      · -- at least three bytes above the mantissa: out of its reach
        have : 256 ^ 3 ≤ 256 ^ (32 - (e - 3)) := Nat.pow_le_pow_right (by decide) (by omega)
        omega


/-! ## Decoding -/

theorem mantissa_lt (bits : UInt32) : (bits &&& 0x7fffff).toNat < 2 ^ 23 := by
  rw [UInt32.toNat_and]
  exact lt_of_le_of_lt Nat.and_le_right (by decide)

theorem expandTarget_eq (bits : UInt32) :
    expandTarget bits =
      if 2 ^ 256 ≤ compactValue (bits >>> 24).toNat (bits &&& 0x7fffff).toNat then
        ⟨0, (bits &&& 0x7fffff).toNat != 0 && bits &&& 0x800000 != 0, true⟩
      else
        ⟨compactValue (bits >>> 24).toNat (bits &&& 0x7fffff).toNat,
          (bits &&& 0x7fffff).toNat != 0 && bits &&& 0x800000 != 0, false⟩ := by
  have hm := mantissa_lt bits
  unfold expandTarget
  dsimp only
  generalize (bits >>> 24).toNat = e
  generalize (bits &&& 0x7fffff).toNat = m at hm ⊢
  generalize (bits &&& 0x800000 != 0) = b
  have hover := overflow_iff (e := e) hm
  by_cases h : 2 ^ 256 ≤ compactValue e m
  · have hbit : (m != 0 && (decide (e > 34) || decide (m > 255) && decide (e > 33) ||
        decide (m > 65535) && decide (e > 32))) = true := by
      simpa [or_assoc] using hover.mpr h
    rw [if_pos hbit, if_pos h, hbit]
  · have hbit : (m != 0 && (decide (e > 34) || decide (m > 255) && decide (e > 33) ||
        decide (m > 65535) && decide (e > 32))) = false := by
      simpa [or_assoc, and_assoc] using mt hover.mp h
    rw [if_neg (by simp [hbit]), if_neg h, hbit]
    unfold compactValue at h ⊢
    split
    · rename_i he
      rw [Nat.shiftRight_eq_div_pow, pow_256]
    · rename_i he
      rw [if_neg he] at h
      rw [Nat.shiftLeft_eq, ← pow_256, Nat.mod_eq_of_lt (by omega)]

theorem expandTarget_overflow (bits : UInt32) :
    (expandTarget bits).overflow =
      decide (2 ^ 256 ≤ compactValue (bits >>> 24).toNat (bits &&& 0x7fffff).toNat) := by
  rw [expandTarget_eq]
  split
  · rename_i h
    exact (decide_eq_true h).symm
  · rename_i h
    exact (decide_eq_false h).symm

theorem expandTarget_target_of_overflow_false {bits : UInt32}
    (h : (expandTarget bits).overflow = false) :
    (expandTarget bits).target = compactValue (bits >>> 24).toNat (bits &&& 0x7fffff).toNat := by
  rw [expandTarget_overflow, decide_eq_false_iff_not] at h
  rw [expandTarget_eq, if_neg h]

theorem compactValue_add_one_lt {e m : Nat} (hm : m < 2 ^ 23) (h : compactValue e m < 2 ^ 256) :
    compactValue e m + 1 < 2 ^ 256 := by
  unfold compactValue at h ⊢
  split
  · have := Nat.div_le_self m (256 ^ (3 - e))
    omega
  · rename_i he
    rw [if_neg he] at h
    obtain ⟨q, hq⟩ : 256 ∣ m * 256 ^ (e - 3) := Dvd.dvd.mul_left (dvd_pow_self 256 (by omega)) m
    omega

theorem expandTarget_target_add_one_lt (bits : UInt32) : (expandTarget bits).target + 1 < 2 ^ 256 := by
  rw [expandTarget_eq]
  split
  · rename_i h
    exact Nat.one_lt_two_pow (by decide)
  · rename_i h
    exact compactValue_add_one_lt (mantissa_lt bits) (Nat.lt_of_not_le h)

theorem expandTarget_target_lt (bits : UInt32) : (expandTarget bits).target < 2 ^ 256 :=
  Nat.lt_of_succ_lt (expandTarget_target_add_one_lt bits)

/-! ## The work of a target -/

theorem complement_div_add_one {t : Nat} (ht : t < 2 ^ 256) :
    (maxU256 - t) / (t + 1) + 1 = 2 ^ 256 / (t + 1) := by
  have h : maxU256 - t + (t + 1) = 2 ^ 256 := by
    unfold maxU256
    omega
  rw [← Nat.add_div_right _ (Nat.succ_pos t), h]

theorem blockProof_eq (bits : UInt32) :
    blockProof bits =
      if (expandTarget bits).valid then 2 ^ 256 / ((expandTarget bits).target + 1) else 0 := by
  unfold blockProof
  dsimp only
  split
  · exact complement_div_add_one (expandTarget_target_lt bits)
  · rfl

theorem blockProof_antitone {b b' : UInt32} (hv : (expandTarget b).valid = true)
    (hv' : (expandTarget b').valid = true)
    (h : (expandTarget b).target ≤ (expandTarget b').target) : blockProof b' ≤ blockProof b := by
  rw [blockProof_eq, blockProof_eq, if_pos hv, if_pos hv']
  exact Nat.div_le_div_left (Nat.succ_le_succ h) (Nat.succ_pos _)

/-- Decoding a compact word is exact, and its work is the expected number of hashes: the word
overflows exactly when ⌊m · 256^(e − 3)⌋ needs more than 256 bits, and otherwise decodes to it;
the target plus one never overflows; a usable target has work ⌊2^256 / (target + 1)⌋ and any
other none; and the work falls as the target grows. -/
theorem compact_target_exact_work (bits : UInt32) :
    ((expandTarget bits).overflow = true ↔
      (2 : ℤ) ^ 256 ≤ ⌊((bits &&& 0x7fffff).toNat : ℚ) * (256 : ℚ) ^ (((bits >>> 24).toNat : ℤ) - 3)⌋) ∧
    ((expandTarget bits).overflow = false →
      ((expandTarget bits).target : ℤ) =
          ⌊((bits &&& 0x7fffff).toNat : ℚ) * (256 : ℚ) ^ (((bits >>> 24).toNat : ℤ) - 3)⌋ ∧
        (expandTarget bits).target < 2 ^ 256) ∧
    (expandTarget bits).target + 1 < 2 ^ 256 ∧
    blockProof bits =
      (if (expandTarget bits).valid then 2 ^ 256 / ((expandTarget bits).target + 1) else 0) ∧
    ∀ bits' : UInt32, (expandTarget bits).valid = true → (expandTarget bits').valid = true →
      (expandTarget bits).target ≤ (expandTarget bits').target →
      blockProof bits' ≤ blockProof bits := by
  rw [← compactValue_eq_floor]
  refine ⟨?_, fun hover => ⟨?_, expandTarget_target_lt bits⟩, expandTarget_target_add_one_lt bits,
    blockProof_eq bits, fun bits' hv hv' h => blockProof_antitone hv hv' h⟩
  · rw [expandTarget_overflow, decide_eq_true_iff]
    norm_cast
  · rw [expandTarget_target_of_overflow_false hover]

/-- The mainnet genesis target decodes exactly, and it is below the test network's, so its work
is more. -/
theorem mainnetBits_target_exact_work :
    (expandTarget 0x1d00ffff).overflow = false ∧ (expandTarget 0x1d00ffff).valid = true ∧
    (expandTarget 0x207fffff).valid = true ∧
    (expandTarget 0x1d00ffff).target ≤ (expandTarget 0x207fffff).target ∧
    (((expandTarget 0x1d00ffff).overflow = true ↔
      (2 : ℤ) ^ 256 ≤ ⌊(((0x1d00ffff : UInt32) &&& 0x7fffff).toNat : ℚ) *
        (256 : ℚ) ^ ((((0x1d00ffff : UInt32) >>> 24).toNat : ℤ) - 3)⌋) ∧
    ((expandTarget 0x1d00ffff).overflow = false →
      ((expandTarget 0x1d00ffff).target : ℤ) =
          ⌊(((0x1d00ffff : UInt32) &&& 0x7fffff).toNat : ℚ) *
            (256 : ℚ) ^ ((((0x1d00ffff : UInt32) >>> 24).toNat : ℤ) - 3)⌋ ∧
        (expandTarget 0x1d00ffff).target < 2 ^ 256) ∧
    (expandTarget 0x1d00ffff).target + 1 < 2 ^ 256 ∧
    blockProof 0x1d00ffff =
      (if (expandTarget 0x1d00ffff).valid then 2 ^ 256 / ((expandTarget 0x1d00ffff).target + 1)
        else 0) ∧
    ∀ bits' : UInt32, (expandTarget 0x1d00ffff).valid = true → (expandTarget bits').valid = true →
      (expandTarget 0x1d00ffff).target ≤ (expandTarget bits').target →
      blockProof bits' ≤ blockProof 0x1d00ffff) :=
  ⟨by decide, by decide, by decide, by decide, compact_target_exact_work 0x1d00ffff⟩

end BitcoinLight.Work
