import Mathlib
import BitcoinLight.Work.Target

set_option autoImplicit false

/-!
# Compact targets normalise

`compressTarget` keeps the top bytes of a target as a 23-bit mantissa, one byte fewer when the
top byte would set the sign bit, and writes the number of bytes kept and dropped as the size.
Read back, such a word is neither negative nor overflowing and stands for the target with the
bytes below its mantissa cleared, and encoding that again gives the same word.

The word is taken apart in three steps. The bit operations of `compressTarget` compute a size and
a mantissa (`compactParts`); a word whose mantissa and size are in range decodes to
`compactValue`; and the size of a non-zero target depends on its bit length alone
(`compactParts_of_ne_zero`), which clearing low bytes does not change.
-/

namespace BitcoinLight.Work

/-! ## Bit lengths -/

theorem bitLength_le_iff {t k : Nat} : bitLength t ≤ k ↔ t < 2 ^ k := by
  unfold bitLength
  split
  · rename_i h
    simp [h]
  · rename_i h
    have hk : t.log2 + 1 ≤ k ↔ t.log2 < k := by omega
    exact hk.trans (Nat.log2_lt h)

theorem lt_bitLength_iff {t k : Nat} (ht : t ≠ 0) : k < bitLength t ↔ 2 ^ k ≤ t := by
  unfold bitLength
  rw [if_neg ht, Nat.lt_add_one_iff]
  exact Nat.le_log2 ht

/-! ## Mantissas -/

/-- The 24-bit window of `t` whose top byte is byte `n - 1` of `t`: the bytes below it are
dropped, and zero bytes fill it from below when `t` has fewer than three. -/
def mantissaAt (t n : Nat) : Nat := if n ≤ 3 then t * 256 ^ (3 - n) else t / 256 ^ (n - 3)

def compactValue (s m : Nat) : Nat := if s ≤ 3 then m / 256 ^ (3 - s) else m * 256 ^ (s - 3)

theorem pow_256 (k : Nat) : 256 ^ k = 2 ^ (8 * k) := by
  rw [Nat.pow_mul]

theorem two_pow_le_mantissaAt_iff {t n a : Nat} (h : 24 ≤ a + 8 * n) :
    2 ^ a ≤ mantissaAt t n ↔ 2 ^ (a + 8 * n - 24) ≤ t := by
  unfold mantissaAt
  split
  · rename_i hn
    have hsplit : 2 ^ a = 2 ^ (a + 8 * n - 24) * 2 ^ (8 * (3 - n)) := by
      rw [← Nat.pow_add]
      congr 1
      omega
    rw [pow_256, hsplit]
    exact Nat.mul_le_mul_right_iff (Nat.two_pow_pos _)
  · rename_i hn
    rw [pow_256, Nat.le_div_iff_mul_le (Nat.two_pow_pos _), ← Nat.pow_add]
    have he : a + 8 * (n - 3) = a + 8 * n - 24 := by omega
    rw [he]

theorem mantissaAt_lt_iff {t n a : Nat} (h : 24 ≤ a + 8 * n) :
    mantissaAt t n < 2 ^ a ↔ t < 2 ^ (a + 8 * n - 24) := by
  simpa only [not_le] using (two_pow_le_mantissaAt_iff (t := t) h).not

theorem mantissaAt_div_256 (t n : Nat) : mantissaAt t n / 256 = mantissaAt t (n + 1) := by
  unfold mantissaAt
  by_cases h2 : n + 1 ≤ 3
  · have hpow : 256 ^ (3 - n) = 256 ^ (3 - (n + 1)) * 256 := by
      rw [← Nat.pow_succ]
      congr 1
      omega
    rw [if_pos (by omega), if_pos h2, hpow, ← Nat.mul_assoc, Nat.mul_div_cancel _ (by decide)]
  · by_cases h3 : n ≤ 3
    · have hn : n = 3 := by omega
      subst hn
      simp
    · rw [if_neg h3, if_neg h2, Nat.div_div_eq_div_mul, ← Nat.pow_succ]
      congr 2
      omega

/-! ## The bits of a compact word -/

/-- The size and mantissa `compressTarget` writes for `t`: the window at the target's byte
length, or the one a byte higher when that window would set the sign bit. -/
def compactParts (t : Nat) : Nat × Nat :=
  let n := (bitLength t + 7) / 8
  if 2 ^ 23 ≤ mantissaAt t n then (n + 1, mantissaAt t (n + 1)) else (n, mantissaAt t n)

theorem lor_shiftLeft_24 {c : Nat} (hc : c < 2 ^ 24) (s : Nat) : c ||| s <<< 24 = c + s * 2 ^ 24 := by
  rw [Nat.lor_comm, ← Nat.shiftLeft_add_eq_or_of_lt hc, Nat.shiftLeft_eq]
  omega

theorem land_signBit (c : Nat) : c &&& 0x800000 = c / 2 ^ 23 % 2 * 2 ^ 23 := by
  rw [show (0x800000 : Nat) = 2 ^ 23 from rfl, Nat.and_two_pow, Nat.testBit_eq_decide_div_mod_eq]
  rcases Nat.mod_two_eq_zero_or_one (c / 2 ^ 23) with h | h <;> rw [h] <;> rfl

theorem shiftedWindow_eq {t n : Nat} (hfit : t < 2 ^ (8 * n)) :
    (if n ≤ 3 then ((t % 2 ^ 64) <<< (8 * (3 - n))) % 2 ^ 32
      else (t >>> (8 * (n - 3))) % 2 ^ 32) = mantissaAt t n := by
  have hm : mantissaAt t n < 2 ^ 24 :=
    (mantissaAt_lt_iff (by omega)).mpr (by rwa [Nat.add_sub_cancel_left])
  unfold mantissaAt at hm ⊢
  split
  · rename_i h3
    rw [if_pos h3] at hm
    have ht : t < 2 ^ 64 := by
      have := Nat.le_mul_of_pos_right t (Nat.pow_pos (by decide : 0 < 256) : 0 < 256 ^ (3 - n))
      omega
    rw [Nat.mod_eq_of_lt ht, Nat.shiftLeft_eq, ← pow_256, Nat.mod_eq_of_lt (by omega)]
  · rename_i h3
    rw [if_neg h3] at hm
    rw [Nat.shiftRight_eq_div_pow, ← pow_256, Nat.mod_eq_of_lt (by omega)]

theorem compressTarget_eq (t : Nat) :
    compressTarget t = ((compactParts t).2 + (compactParts t).1 * 2 ^ 24).toUInt32 := by
  unfold compressTarget compactParts
  generalize hn : (bitLength t + 7) / 8 = n
  -- the target fits in its byte length, so the window is below 2^24
  have hfit : t < 2 ^ (8 * n) := bitLength_le_iff.mp (by omega)
  have hm : mantissaAt t n < 2 ^ 24 :=
    (mantissaAt_lt_iff (by omega)).mpr (by rwa [Nat.add_sub_cancel_left])
  have hsign : (mantissaAt t n &&& 0x800000 != 0) = decide (2 ^ 23 ≤ mantissaAt t n) := by
    rw [land_signBit, Bool.eq_iff_iff, bne_iff_ne, decide_eq_true_iff]
    omega
  -- a window that would set the sign bit moves up a byte
  by_cases h : 2 ^ 23 ≤ mantissaAt t n
  · have hlow : mantissaAt t n >>> 8 = mantissaAt t (n + 1) := by
      rw [Nat.shiftRight_eq_div_pow, ← mantissaAt_div_256]
    have hlt : mantissaAt t (n + 1) < 2 ^ 24 := by
      rw [← mantissaAt_div_256]
      omega
    simp only [shiftedWindow_eq hfit, hsign, h, decide_true, ↓reduceIte, hlow,
      lor_shiftLeft_24 hlt]
  · simp only [shiftedWindow_eq hfit, hsign, h, decide_false, Bool.false_eq_true, ↓reduceIte,
      lor_shiftLeft_24 hm]

section Word

variable {s m : Nat}

theorem word_toNat (hm : m < 2 ^ 23) (hs : s ≤ 33) : (m + s * 2 ^ 24).toUInt32.toNat = m + s * 2 ^ 24 := by
  simp only [Nat.toUInt32, UInt32.toNat_ofNat']
  exact Nat.mod_eq_of_lt (by omega)

theorem word_size (hm : m < 2 ^ 23) (hs : s ≤ 33) :
    ((m + s * 2 ^ 24).toUInt32 >>> (24 : UInt32)).toNat = s := by
  rw [UInt32.toNat_shiftRight, word_toNat hm hs]
  show (m + s * 2 ^ 24) >>> 24 = s
  omega

theorem expandTarget_word (hm : m < 2 ^ 23) (hs : s ≤ 32 ∨ s = 33 ∧ m < 2 ^ 16) :
    expandTarget (m + s * 2 ^ 24).toUInt32 = ⟨compactValue s m, false, false⟩ := by
  have hs33 : s ≤ 33 := by omega
  have hw := word_toNat hm hs33
  have hword : ((m + s * 2 ^ 24).toUInt32 &&& 0x7fffff).toNat = m := by
    rw [UInt32.toNat_and, hw]
    show (m + s * 2 ^ 24) &&& (2 ^ 23 - 1) = m
    rw [Nat.and_two_pow_sub_one_eq_mod]
    omega
  have hsign : ((m + s * 2 ^ 24).toUInt32 &&& 0x800000 != 0) = false := by
    have hbit : ((m + s * 2 ^ 24).toUInt32 &&& 0x800000).toNat = 0 := by
      rw [UInt32.toNat_and, hw]
      show (m + s * 2 ^ 24) &&& 0x800000 = 0
      rw [land_signBit]
      omega
    have hz : (m + s * 2 ^ 24).toUInt32 &&& 0x800000 = 0 := UInt32.toNat_inj.mp hbit
    rw [hz]
    rfl
  unfold expandTarget compactValue
  simp only [word_size hm hs33, hword, hsign, Bool.and_false]
  have hover : (m != 0 && (decide (s > 34) || decide (m > 0xff) && decide (s > 33) ||
      decide (m > 0xffff) && decide (s > 32))) = false := by
    rcases hs with hs | ⟨rfl, hm16⟩
    · simp [show ¬ s > 34 by omega, show ¬ s > 33 by omega, show ¬ s > 32 by omega]
    · simp [show ¬ m > 0xffff by omega]
  simp only [hover, Bool.false_eq_true, ↓reduceIte]
  split
  · rw [Nat.shiftRight_eq_div_pow, pow_256]
  · rename_i h3
    rw [Nat.shiftLeft_eq, ← pow_256]
    -- the mantissa and the size keep the decoded value below 2^256
    congr 1
    apply Nat.mod_eq_of_lt
    rcases hs with hs | ⟨rfl, hm16⟩
    · calc m * 256 ^ (s - 3) < 2 ^ 23 * 256 ^ (s - 3) :=
            Nat.mul_lt_mul_of_pos_right hm (Nat.pow_pos (by decide))
        _ ≤ 2 ^ 23 * 256 ^ 29 := Nat.mul_le_mul_left _ (Nat.pow_le_pow_right (by decide) (by omega))
        _ < 2 ^ 256 := by decide
    · calc m * 256 ^ (33 - 3) < 2 ^ 16 * 256 ^ (33 - 3) :=
            Nat.mul_lt_mul_of_pos_right hm16 (Nat.pow_pos (by decide))
        _ = 2 ^ 256 := by decide

end Word

/-! ## The size of a target -/

theorem compactParts_zero : compactParts 0 = (0, 0) := rfl

theorem compactParts_of_ne_zero {t : Nat} (ht : t ≠ 0) :
    compactParts t = (bitLength t / 8 + 1, mantissaAt t (bitLength t / 8 + 1)) := by
  have hpos : 0 < bitLength t := (lt_bitLength_iff ht).mpr (by omega)
  have hlo : 2 ^ (bitLength t - 1) ≤ t := (lt_bitLength_iff ht).mp (by omega)
  have hhi : t < 2 ^ bitLength t := bitLength_le_iff.mp le_rfl
  unfold compactParts
  generalize bitLength t = B at hpos hlo hhi ⊢
  by_cases h8 : B % 8 = 0
  · -- the top byte is whole, so its top bit would be the sign bit
    have hsign : 2 ^ 23 ≤ mantissaAt t ((B + 7) / 8) := by
      rw [two_pow_le_mantissaAt_iff (by omega)]
      exact le_trans (Nat.pow_le_pow_right (by decide) (by omega)) hlo
    simp only [if_pos hsign]
    congr 2 <;> omega
  · have hclear : ¬ 2 ^ 23 ≤ mantissaAt t ((B + 7) / 8) := by
      rw [not_le, mantissaAt_lt_iff (by omega)]
      exact lt_of_lt_of_le hhi (Nat.pow_le_pow_right (by decide) (by omega))
    simp only [if_neg hclear]
    congr 2 <;> omega

theorem compactParts_normal {t : Nat} (ht : t < 2 ^ 256) :
    (compactParts t).2 < 2 ^ 23 ∧
      ((compactParts t).1 ≤ 32 ∨ (compactParts t).1 = 33 ∧ (compactParts t).2 < 2 ^ 16) := by
  rcases Nat.eq_zero_or_pos t with rfl | hpos
  · rw [compactParts_zero]
    decide
  have hB : bitLength t ≤ 256 := bitLength_le_iff.mpr ht
  rw [compactParts_of_ne_zero (by omega)]
  refine ⟨?_, ?_⟩
  · rw [mantissaAt_lt_iff (by omega)]
    exact lt_of_lt_of_le (bitLength_le_iff.mp le_rfl) (Nat.pow_le_pow_right (by decide) (by omega))
  · by_cases h32 : bitLength t / 8 + 1 ≤ 32
    · exact .inl h32
    · -- only a full 256-bit target reaches size 33, and then two bytes are left for the mantissa
      have h33 : bitLength t / 8 + 1 = 33 := by omega
      refine .inr ⟨h33, ?_⟩
      rw [h33, mantissaAt_lt_iff (by omega)]
      exact ht

theorem le_div_mul_of_dvd {x t d : Nat} (h : d ∣ x) (hx : x ≤ t) : x ≤ t / d * d := by
  obtain ⟨k, rfl⟩ := h
  rcases Nat.eq_zero_or_pos d with rfl | hd
  · simp
  · have hk : k ≤ t / d := (Nat.le_div_iff_mul_le hd).mpr (by rwa [Nat.mul_comm] at hx)
    calc d * k = k * d := Nat.mul_comm _ _
      _ ≤ t / d * d := Nat.mul_le_mul_right d hk

theorem compactValue_compactParts (t : Nat) :
    compactValue (compactParts t).1 (compactParts t).2 =
      t / 256 ^ ((compactParts t).1 - 3) * 256 ^ ((compactParts t).1 - 3) := by
  rcases Nat.eq_zero_or_pos t with rfl | hpos
  · rw [compactParts_zero]
    rfl
  rw [compactParts_of_ne_zero (by omega)]
  dsimp only
  generalize bitLength t / 8 + 1 = s
  unfold compactValue mantissaAt
  by_cases hs : s ≤ 3
  · rw [if_pos hs, if_pos hs, Nat.mul_div_cancel _ (Nat.pow_pos (by decide)),
      show s - 3 = 0 by omega]
    simp
  · rw [if_neg hs, if_neg hs]

theorem compactParts_compactValue (t : Nat) :
    compactParts (compactValue (compactParts t).1 (compactParts t).2) = compactParts t := by
  rcases Nat.eq_zero_or_pos t with rfl | hpos
  · rw [compactParts_zero]
    rfl
  have ht : t ≠ 0 := by omega
  rw [compactValue_compactParts, compactParts_of_ne_zero ht]
  dsimp only
  generalize hB : bitLength t = B
  by_cases hs : B / 8 + 1 ≤ 3
  · rw [show B / 8 + 1 - 3 = 0 by omega, Nat.pow_zero, Nat.div_one, Nat.mul_one,
      compactParts_of_ne_zero ht, hB]
  -- the cleared bytes lie below the top bit, so the bit length stays
  have hd : 0 < 256 ^ (B / 8 + 1 - 3) := Nat.pow_pos (by decide)
  have hlo : 2 ^ (8 * (B / 8) - 1) ≤ t / 256 ^ (B / 8 + 1 - 3) * 256 ^ (B / 8 + 1 - 3) := by
    refine le_div_mul_of_dvd ?_ ((lt_bitLength_iff ht).mp (by omega))
    rw [pow_256]
    exact Nat.pow_dvd_pow 2 (by omega)
  have hne : t / 256 ^ (B / 8 + 1 - 3) * 256 ^ (B / 8 + 1 - 3) ≠ 0 :=
    Nat.pos_iff_ne_zero.mp (lt_of_lt_of_le (Nat.two_pow_pos _) hlo)
  have hlen : bitLength (t / 256 ^ (B / 8 + 1 - 3) * 256 ^ (B / 8 + 1 - 3)) / 8 = B / 8 := by
    have hhi : t < 2 ^ B := hB ▸ bitLength_le_iff.mp le_rfl
    have h1 : bitLength (t / 256 ^ (B / 8 + 1 - 3) * 256 ^ (B / 8 + 1 - 3)) ≤ B :=
      bitLength_le_iff.mpr (lt_of_le_of_lt (Nat.div_mul_le_self t _) hhi)
    have h2 := (lt_bitLength_iff hne).mpr hlo
    omega
  rw [compactParts_of_ne_zero hne, hlen]
  unfold mantissaAt
  rw [if_neg hs, if_neg hs, Nat.mul_div_cancel _ hd]

/-! ## Normalisation -/

theorem expandTarget_compressTarget {t : Nat} (ht : t < 2 ^ 256) :
    expandTarget (compressTarget t) = ⟨compactValue (compactParts t).1 (compactParts t).2, false, false⟩ := by
  obtain ⟨hm, hs⟩ := compactParts_normal ht
  rw [compressTarget_eq]
  exact expandTarget_word hm hs

theorem compressTarget_size {t : Nat} (ht : t < 2 ^ 256) :
    (compressTarget t >>> (24 : UInt32)).toNat = (compactParts t).1 := by
  obtain ⟨hm, hs⟩ := compactParts_normal ht
  rw [compressTarget_eq]
  exact word_size hm (by omega)

theorem expandTarget_compressTarget_target {t : Nat} (ht : t < 2 ^ 256) :
    (expandTarget (compressTarget t)).target = t - t % 256 ^ ((compressTarget t >>> (24 : UInt32)).toNat - 3) := by
  rw [expandTarget_compressTarget ht, compressTarget_size ht]
  exact (compactValue_compactParts t).trans Nat.div_mul_self_eq_mod_sub_self

theorem expandTarget_compressTarget_le {t : Nat} (ht : t < 2 ^ 256) :
    (expandTarget (compressTarget t)).target ≤ t := by
  rw [expandTarget_compressTarget_target ht]
  exact Nat.sub_le _ _

/-- Encoding a 256-bit target loses only the bytes below its mantissa: the word decodes without
sign or overflow to the target with those bytes cleared, and encodes back to itself. -/
theorem compressTarget_normalises (t : Nat) (ht : t < 2 ^ 256) :
    (expandTarget (compressTarget t)).negative = false ∧
      (expandTarget (compressTarget t)).overflow = false ∧
      (expandTarget (compressTarget t)).target =
        t - t % 256 ^ ((compressTarget t >>> (24 : UInt32)).toNat - 3) ∧
      (expandTarget (compressTarget t)).target ≤ t ∧
      compressTarget (expandTarget (compressTarget t)).target = compressTarget t := by
  refine ⟨?_, ?_, expandTarget_compressTarget_target ht, expandTarget_compressTarget_le ht, ?_⟩
  · rw [expandTarget_compressTarget ht]
  · rw [expandTarget_compressTarget ht]
  · rw [expandTarget_compressTarget ht, compressTarget_eq, compactParts_compactValue,
      ← compressTarget_eq]

/-- The three-byte target 0x800001 would set the sign bit: it is written with size 4 and loses
its low byte. -/
theorem signBitTarget_normalises :
    (0x800001 : Nat) < 2 ^ 256 ∧
      (expandTarget (compressTarget 0x800001)).negative = false ∧
      (expandTarget (compressTarget 0x800001)).overflow = false ∧
      (expandTarget (compressTarget 0x800001)).target =
        0x800001 - 0x800001 % 256 ^ ((compressTarget 0x800001 >>> (24 : UInt32)).toNat - 3) ∧
      (expandTarget (compressTarget 0x800001)).target ≤ 0x800001 ∧
      compressTarget (expandTarget (compressTarget 0x800001)).target = compressTarget 0x800001 :=
  ⟨by decide, compressTarget_normalises 0x800001 (by decide)⟩

end BitcoinLight.Work
