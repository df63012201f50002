import Mathlib
import BitcoinLight.Script.Token
import BitcoinLight.Proofs.ByteCodec

set_option autoImplicit false

/-!
# Script numbers: sign and magnitude

A script number is little-endian, with the sign in the top bit of its last byte. `decodeNumber`
ORs byte `i` into a 64-bit word `8 · i` bits up, and for a negative number masks the sign bit off
and negates. For at most eight bytes no two bytes overlap, and the magnitude stays below 2^63, so
the word holds (-1)^σ · Σ_k b'_k · 256^k exactly, where σ is the sign bit and b' the bytes with
it cleared (`signMagnitude`).

Nothing ties the length limit to eight bytes, though. A ninth byte is shifted by 64 bits, which a
64-bit shift takes modulo 64, so it lands on byte 0 instead: with a limit of nine,
`80 00 00 00 00 00 00 00 80` decodes to 0 and not to -128.
-/

namespace BitcoinLight.Script

/-! ## The value a script number stands for -/

def signBit (bs : List UInt8) : Nat := (bs.getLast?.getD 0).toNat / 128

def clearSign (bs : List UInt8) : List UInt8 :=
  bs.dropLast ++ (bs.getLast?.map (· &&& 0x7f)).toList

def signMagnitude (bs : List UInt8) : Int :=
  (-1) ^ signBit bs * (Word.leValue (clearSign bs) : Int)

example : signMagnitude [0x81] = -1 := by decide
example : signMagnitude [0xff, 0x00] = 255 := by decide
example : signMagnitude [0x00, 0x65, 0xcd, 0x1d] = 500000000 := by decide

theorem leValue_append (xs ys : List UInt8) :
    Word.leValue (xs ++ ys) = Word.leValue xs + 2 ^ (8 * xs.length) * Word.leValue ys := by
  induction xs with
  | nil => simp
  | cons x xs ih =>
    rw [List.cons_append, Word.leValue_cons, Word.leValue_cons, ih, List.length_cons,
      Word.pow_eight_succ]
    ring

/-! ## Bits of a 64-bit word -/

theorem testBit_of_lt_two_pow {x s j : Nat} (hx : x < 2 ^ s) (hsj : s ≤ j) :
    x.testBit j = false :=
  Nat.testBit_lt_two_pow (Nat.lt_of_lt_of_le hx (Nat.pow_le_pow_right (by omega) hsj))

theorem or_shiftLeft_toNat (a x : BitVec 64) (s : Nat) (ha : a.toNat < 2 ^ s)
    (hx : x.toNat * 2 ^ s < 2 ^ 64) :
    (a ||| x <<< s).toNat = a.toNat + x.toNat * 2 ^ s := by
  rw [BitVec.toNat_or, BitVec.toNat_shiftLeft, Nat.shiftLeft_eq, Nat.mod_eq_of_lt hx, Nat.or_comm,
    Nat.mul_comm, ← Nat.two_pow_add_eq_or_of_lt ha, Nat.add_comm]

theorem clear_sign_bit (a c : BitVec 64) (s : Nat) (ha : a.toNat < 2 ^ s) (hc : c.toNat < 256) :
    (a ||| c <<< s) &&& ~~~((0x80 : BitVec 64) <<< s) = a ||| (c &&& 0x7f) <<< s := by
  ext j hj
  simp only [BitVec.getElem_and, BitVec.getElem_or, BitVec.getElem_not, BitVec.getElem_shiftLeft]
  by_cases hjs : j < s
  · simp [hjs]
  simp only [hjs, decide_false, Bool.not_false, Bool.true_and, BitVec.getElem_eq_testBit_toNat,
    testBit_of_lt_two_pow ha (Nat.le_of_not_lt hjs), Bool.false_or,
    show (0x80 : BitVec 64).toNat = 128 from rfl, show (0x7f : BitVec 64).toNat = 127 from rfl]
  -- bit `j` is bit `j - s` of the byte: above 7 it is clear, and bit 7 is the sign
  by_cases hk : j - s < 8
  · have h128 : ∀ k < 8, Nat.testBit 128 k = decide (k = 7) := by decide
    have h127 : ∀ k < 8, Nat.testBit 127 k = decide (k < 7) := by decide
    rw [h128 _ hk, h127 _ hk]
    by_cases h7 : j - s = 7
    · simp [h7]
    · simp [h7, show j - s < 7 by omega]
  · have hcj := testBit_of_lt_two_pow (s := 8) hc (by omega : 8 ≤ j - s)
    simp [hcj]

theorem and_low7_toNat (x : BitVec 64) : (x &&& 0x7f).toNat = x.toNat % 128 := by
  rw [BitVec.toNat_and, show (0x7f : BitVec 64).toNat = 2 ^ 7 - 1 by rfl,
    Nat.and_two_pow_sub_one_eq_mod]

theorem byte_toBitVec_toNat (c : UInt8) : c.toUInt64.toInt64.toBitVec.toNat = c.toNat := by
  simp

theorem clearByte_toNat (c : UInt8) : (c &&& 0x7f).toNat = c.toNat % 128 := by
  rw [UInt8.toNat_and, show (0x7f : UInt8).toNat = 2 ^ 7 - 1 by rfl, Nat.and_two_pow_sub_one_eq_mod]

theorem signByte_iff (c : UInt8) : (c &&& 0x80 != 0) = decide (128 ≤ c.toNat) := by
  have hc := c.toNat_lt
  rw [Bool.eq_iff_iff, bne_iff_ne, ne_eq, ← UInt8.toNat_inj, UInt8.toNat_and, decide_eq_true_iff,
    show (0x80 : UInt8).toNat = 2 ^ 7 by rfl, Nat.and_two_pow, Nat.testBit_eq_decide_div_mod_eq]
  by_cases h7 : c.toNat / 2 ^ 7 % 2 = 1 <;> simp <;> omega

theorem int64_eq_ofNat {x : Int64} {n : Nat} (h : x.toBitVec.toNat = n) : x = Int64.ofNat n := by
  rw [← Int64.toBitVec_inj, Int64.toBitVec_ofNat']
  apply BitVec.eq_of_toNat_eq
  rw [h, BitVec.toNat_ofNat, Nat.mod_eq_of_lt (h ▸ x.toBitVec.isLt)]

/-! ## The decoding loop -/

def orByte (acc : Int64) (p : Nat × UInt8) : Int64 :=
  acc ||| (p.2.toUInt64.toInt64 <<< (8 * p.1).toInt64)

theorem toList_loop_eq (b : ByteArray) (i : Nat) (r : List UInt8) :
    ByteArray.toList.loop b i r = r.reverse ++ b.data.toList.drop i := by
  fun_induction ByteArray.toList.loop b i r with
  | case1 i r hi ih =>
    have hi' : i < b.data.toList.length := by simpa using hi
    rw [ih, List.drop_eq_getElem_cons hi']
    simp [ByteArray.get!, getElem!_pos, hi]
  | case2 i r hi =>
    have : b.data.toList.length ≤ i := by simpa using hi
    simp [List.drop_eq_nil_of_le this]

theorem toList_eq_data_toList (b : ByteArray) : b.toList = b.data.toList := by
  simp [ByteArray.toList, toList_loop_eq]

theorem data_toList_eq_nil_iff {b : ByteArray} : b.data.toList = [] ↔ b.size = 0 := by
  rw [← List.length_eq_zero_iff, Array.length_toList]
  rfl

theorem decodeNumber_eq (b : ByteArray) (limit : Nat) (h : b.size ≤ limit) (h0 : b.size ≠ 0) :
    decodeNumber b limit =
      let value := ((List.range b.size).zip b.data.toList).foldl orByte 0
      let lastByte := b.data.toList.getLast?.getD 0
      if lastByte &&& 0x80 != 0 then
        .ok (-(value &&& ~~~((0x80 : Int64) <<< (8 * (b.size - 1)).toInt64)))
      else .ok value := by
  simp only [decodeNumber, toList_eq_data_toList, Array.length_toList, ByteArray.size_data]
  rw [if_neg (by omega), if_neg h0]
  rfl

theorem shiftAmount_toNat (i : Nat) (hi : i < 8) :
    ((8 * i).toInt64.toBitVec.smod 64).toNat = 8 * i := by
  interval_cases i <;> decide

theorem orByte_toNat (acc : Int64) (k : Nat) (x : UInt8) (hk : k < 8)
    (hacc : acc.toBitVec.toNat < 2 ^ (8 * k)) :
    (orByte acc (k, x)).toBitVec.toNat = acc.toBitVec.toNat + x.toNat * 2 ^ (8 * k) := by
  have hx : x.toNat < 256 := x.toNat_lt
  have hpow : 2 ^ (8 * k) * 256 ≤ 2 ^ 64 := by
    rw [show (256 : Nat) = 2 ^ 8 by rfl, ← Nat.pow_add]
    exact Nat.pow_le_pow_right (by omega) (by omega)
  simp only [orByte, Int64.toBitVec_or, Int64.toBitVec_shiftLeft, BitVec.shiftLeft_eq',
    shiftAmount_toNat k hk]
  rw [or_shiftLeft_toNat _ _ _ hacc]
  · simp
  · simp; nlinarith

theorem foldl_orByte_toNat (bs : List UInt8) (k : Nat) (acc : Int64) (hk : k + bs.length ≤ 8)
    (hacc : acc.toBitVec.toNat < 2 ^ (8 * k)) :
    (((List.range' k bs.length).zip bs).foldl orByte acc).toBitVec.toNat =
      acc.toBitVec.toNat + 2 ^ (8 * k) * Word.leValue bs := by
  induction bs generalizing k acc with
  | nil => simp
  | cons x xs ih =>
    have hx : x.toNat < 256 := x.toNat_lt
    have hk' : k < 8 := by simp at hk; omega
    have hstep := orByte_toNat acc k x hk' hacc
    have hnext : (orByte acc (k, x)).toBitVec.toNat < 2 ^ (8 * (k + 1)) := by
      rw [hstep, Word.pow_eight_succ]
      nlinarith
    rw [List.length_cons, List.range'_succ, List.zip_cons_cons, List.foldl_cons,
      ih (k + 1) _ (by simp at hk; omega) hnext, hstep, Word.leValue_cons, Word.pow_eight_succ]
    ring

theorem foldl_orByte_concat (init : List UInt8) (c : UInt8) :
    ((List.range (init.length + 1)).zip (init ++ [c])).foldl orByte 0 =
      orByte (((List.range init.length).zip init).foldl orByte 0) (init.length, c) := by
  rw [List.range_succ, List.zip_append (by simp), List.foldl_append]
  rfl

/-! ## The decoded value

Below the last byte the loop has built `low`, the little-endian number of the bytes before it;
the last byte `c` then decides the sign. -/

theorem room_below_sign {n : Nat} (hm : n < 8) : 2 ^ (8 * n) * 128 ≤ 2 ^ 63 := by
  rw [show (128 : Nat) = 2 ^ 7 by rfl, ← Nat.pow_add]
  exact Nat.pow_le_pow_right (by omega) (by omega)

section LastByte

variable {low : Int64} {init : List UInt8} (c : UInt8) (hm : init.length < 8)
  (hlow : low.toBitVec.toNat = Word.leValue init)
include hm hlow

theorem negative_toInt (hsign : 128 ≤ c.toNat) :
    (-(orByte low (init.length, c) &&& ~~~((0x80 : Int64) <<< (8 * init.length).toInt64))).toInt =
      signMagnitude (init ++ [c]) := by
  have hlow_lt : low.toBitVec.toNat < 2 ^ (8 * init.length) := hlow ▸ Word.leValue_lt init
  have hpow := room_below_sign hm
  have hc := c.toNat_lt
  have hC : (c.toUInt64.toInt64.toBitVec).toNat < 256 := by rw [byte_toBitVec_toNat]; omega
  have hclear : (c &&& 0x7f).toNat = c.toNat - 128 := by rw [clearByte_toNat]; omega
  have hmag : Word.leValue (init ++ [c &&& 0x7f]) =
      Word.leValue init + (c.toNat - 128) * 2 ^ (8 * init.length) := by
    rw [leValue_append]; simp [hclear]; ring
  have htop : (c.toNat - 128) * 2 ^ (8 * init.length) ≤ 127 * 2 ^ (8 * init.length) :=
    Nat.mul_le_mul_right _ (by omega)
  have hmask : orByte low (init.length, c) &&& ~~~((0x80 : Int64) <<< (8 * init.length).toInt64) =
      Int64.ofNat (Word.leValue (init ++ [c &&& 0x7f])) := by
    apply int64_eq_ofNat
    simp only [orByte, Int64.toBitVec_and, Int64.toBitVec_not, Int64.toBitVec_or,
      Int64.toBitVec_shiftLeft, BitVec.shiftLeft_eq', shiftAmount_toNat _ hm, Int64.toBitVec_ofNat]
    have hlow7 : (c.toUInt64.toInt64.toBitVec &&& 0x7f).toNat = c.toNat - 128 := by
      rw [and_low7_toNat, byte_toBitVec_toNat]; omega
    rw [clear_sign_bit _ _ _ hlow_lt hC, or_shiftLeft_toNat _ _ _ hlow_lt (by rw [hlow7]; omega),
      hlow, hmag, hlow7]
  rw [hmask, Int64.toInt_neg_ofNat_of_le (by rw [hmag]; omega)]
  simp [signMagnitude, signBit, clearSign, show c.toNat / 128 = 1 by omega]

theorem nonnegative_toInt (hsign : ¬128 ≤ c.toNat) :
    (orByte low (init.length, c)).toInt = signMagnitude (init ++ [c]) := by
  have hlow_lt : low.toBitVec.toNat < 2 ^ (8 * init.length) := hlow ▸ Word.leValue_lt init
  have hpow := room_below_sign hm
  have hclear : c &&& 0x7f = c := by
    rw [← UInt8.toNat_inj, clearByte_toNat]; omega
  have hlast : Word.leValue (init ++ [c]) =
      Word.leValue init + 2 ^ (8 * init.length) * c.toNat := by
    rw [leValue_append]; simp
  have hv : orByte low (init.length, c) = Int64.ofNat (Word.leValue (init ++ [c])) := by
    apply int64_eq_ofNat
    rw [orByte_toNat low init.length c hm hlow_lt, hlow, hlast]
    ring
  rw [hv, Int64.toInt_ofNat_of_lt (by rw [hlast]; nlinarith)]
  simp [signMagnitude, signBit, clearSign, hclear, Nat.div_eq_of_lt (Nat.lt_of_not_le hsign)]

end LastByte

theorem decodeNumber_spec (b : ByteArray) (limit : Nat) (h : b.size ≤ limit) (h8 : b.size ≤ 8) :
    ∃ v : Int64, decodeNumber b limit = .ok v ∧ v.toInt = signMagnitude b.data.toList := by
  by_cases h0 : b.size = 0
  · have hnil : b.data.toList = [] := data_toList_eq_nil_iff.mpr h0
    refine ⟨0, by simp [decodeNumber, h0], ?_⟩
    simp [hnil, signMagnitude, signBit, clearSign, Word.leValue]
  obtain ⟨init, c, hbs⟩ : ∃ init c, b.data.toList = init ++ [c] :=
    (List.eq_nil_or_concat' _).resolve_left (mt data_toList_eq_nil_iff.mp h0)
  have hsize : b.size = init.length + 1 := by
    have := congrArg List.length hbs
    simpa using this
  rw [decodeNumber_eq b limit h h0, hbs, hsize, foldl_orByte_concat]
  simp only [List.getLast?_concat, Option.getD_some, Nat.add_sub_cancel, signByte_iff]
  -- what the loop has read below the last byte
  have hlow : (((List.range init.length).zip init).foldl orByte 0).toBitVec.toNat =
      Word.leValue init := by
    have := foldl_orByte_toNat init 0 0 (by omega) (by simp)
    rw [List.range_eq_range']
    simpa using this
  have hm : init.length < 8 := by omega
  by_cases hsign : 128 ≤ c.toNat
  · exact ⟨_, by rw [if_pos (decide_eq_true hsign)], negative_toInt c hm hlow hsign⟩
  · exact ⟨_, by simp [hsign], nonnegative_toInt c hm hlow hsign⟩

/-- Script numbers: one longer than its limit is refused, and one of at most eight bytes within
its limit decodes to (-1)^σ · Σ_k b'_k · 256^k. -/
theorem script_number_sign_magnitude (b : ByteArray) (limit : Nat) :
    (limit < b.size → decodeNumber b limit = .error (.numberTooLong b.size limit)) ∧
    (b.size ≤ limit → b.size ≤ 8 →
      ∃ v : Int64, decodeNumber b limit = .ok v ∧ v.toInt = signMagnitude b.data.toList) :=
  ⟨fun h => by simp [decodeNumber, h], decodeNumber_spec b limit⟩

/-- `ff 80`, a two-byte number within a limit of four, decodes to its sign and magnitude. -/
theorem minus255_sign_magnitude :
    (⟨#[0xff, 0x80]⟩ : ByteArray).size ≤ 4 ∧ (⟨#[0xff, 0x80]⟩ : ByteArray).size ≤ 8 ∧
      ∃ v : Int64, decodeNumber ⟨#[0xff, 0x80]⟩ 4 = .ok v ∧ v.toInt = signMagnitude [0xff, 0x80] :=
  ⟨by decide, by decide, (script_number_sign_magnitude ⟨#[0xff, 0x80]⟩ 4).2 (by decide) (by decide)⟩

def nineByteNumber : ByteArray := ⟨#[0x80, 0, 0, 0, 0, 0, 0, 0, 0x80]⟩

/-- With a limit of nine, the ninth byte is shifted by 64 bits, taken as 0: it cancels the first
byte's top bit and the number decodes to 0, where its sign and magnitude say -128. -/
theorem nineByteNumber_decodes_to_zero :
    decodeNumber nineByteNumber 9 = .ok 0 ∧ signMagnitude nineByteNumber.data.toList = -128 := by
  constructor
  · rw [decodeNumber_eq _ _ (by decide) (by decide)]
    decide
  · decide

end BitcoinLight.Script
