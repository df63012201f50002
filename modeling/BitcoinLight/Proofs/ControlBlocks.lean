import BitcoinLight.Taproot.ControlBlock
import BitcoinLight.Proofs.SignatureHash

set_option autoImplicit false

/-!
# Control blocks are read back from their bytes

A control block is 33 + 32k bytes with k ≤ 128: one byte that joins the leaf version (its bits
other than the lowest) and the parity of the output key (the lowest bit), the 32-byte internal
key, and k branch hashes of 32 bytes each. Reading accepts exactly the sizes of that form with a
key that is a point of the curve, and every block it reads is written back as the bytes it came
from. Conversely a block with an even leaf version, a parity bit, at most 128 branch hashes and a
key that is a point is read back from its bytes, so reading and writing are inverse on the blocks
that can occur.
-/

namespace BitcoinLight

@[simp] theorem Hash256.ofBytes?_bytes (h : Hash256) : Hash256.ofBytes? h.bytes = some h := by
  simp [Hash256.ofBytes?, h.size_eq]

theorem foldl_append_eq {α : Type} (f : α → ByteArray) (xs : List α) (init : ByteArray) :
    xs.foldl (fun acc x => acc ++ f x) init = init ++ concatMap f xs := by
  apply ByteArray.ext
  apply Array.ext'
  simp [foldl_append_toList, concatMap_toList]

namespace Taproot

theorem chunks32_append (h : Hash256) (d : ByteArray) :
    chunks32 (h.bytes ++ d) = h :: chunks32 d := by
  have hsize : (h.bytes ++ d).size / 32 = d.size / 32 + 1 := by
    rw [ByteArray.size_append, h.size_eq]; omega
  have hfirst : Hash256.ofBytes? ((h.bytes ++ d).extract (32 * 0) (32 * 0 + 32)) = some h := by
    rw [ByteArray.extract_append_eq_left h.size_eq.symm, Hash256.ofBytes?_bytes]
  -- the pieces after the first are the pieces of `d`, 32 bytes further on
  have hpiece (k : Nat) : (h.bytes ++ d).extract (32 * (k + 1)) (32 * (k + 1) + 32) =
      d.extract (32 * k) (32 * k + 32) := by
    rw [show 32 * (k + 1) = h.bytes.size + 32 * k by rw [h.size_eq]; ring,
      show h.bytes.size + 32 * k + 32 = h.bytes.size + (32 * k + 32) by ring,
      ByteArray.extract_append_size_add]
  unfold chunks32
  rw [hsize, List.range_succ_eq_map]
  simp only [List.filterMap_cons, hfirst, List.filterMap_map, Function.comp_def, hpiece]

theorem chunks32_concatMap (hs : List Hash256) : chunks32 (concatMap Hash256.bytes hs) = hs := by
  induction hs with
  | nil => rfl
  | cons h hs ih => rw [concatMap_cons, chunks32_append, ih]

theorem exists_concatMap_hashes (d : ByteArray) (hd : d.size % 32 = 0) :
    ∃ hs : List Hash256, d = concatMap Hash256.bytes hs ∧ hs.length = d.size / 32 := by
  induction hn : d.size / 32 generalizing d with
  | zero =>
    have hempty : d = ByteArray.empty := ByteArray.size_eq_zero_iff.mp (by omega)
    exact ⟨[], by rw [hempty, concatMap_nil], rfl⟩
  | succ n ih =>
    -- split off the first 32 bytes as a hash and cut the rest
    let h : Hash256 := ⟨d.extract 0 32, by rw [ByteArray.size_extract]; omega⟩
    have hsplit : d = h.bytes ++ d.extract 32 d.size := by
      conv_lhs => rw [← ByteArray.extract_zero_size (b := d)]
      exact ByteArray.extract_eq_extract_append_extract 32 (by omega) (by omega)
    have hrest : (d.extract 32 d.size).size = d.size - 32 := by
      rw [ByteArray.size_extract, Nat.min_self]
    obtain ⟨hs, hd', hlen⟩ := ih (d.extract 32 d.size) (by omega) (by omega)
    refine ⟨h :: hs, ?_, by rw [List.length_cons, hlen]⟩
    rw [concatMap_cons, ← hd']
    exact hsplit

theorem firstByte_split (x : UInt8) :
    (x &&& 0xfe) % 2 = 0 ∧ ((x &&& 1) = 0 ∨ (x &&& 1) = 1) ∧ (x &&& 0xfe) ||| (x &&& 1) = x := by
  revert x
  decide +kernel

theorem firstByte_join {v p : UInt8} (hv : v % 2 = 0) (hp : p = 0 ∨ p = 1) :
    (v ||| p) &&& 0xfe = v ∧ (v ||| p) &&& 1 = p := by
  revert v
  rcases hp with rfl | rfl <;> decide +kernel

namespace ControlBlock

theorem serialize_eq (cb : ControlBlock) :
    cb.serialize = ByteArray.empty.push (cb.leafVersion ||| cb.parity) ++ cb.internalKey ++
      concatMap Hash256.bytes cb.branch :=
  foldl_append_eq Hash256.bytes cb.branch _

theorem parse_eq_ok_iff {b : ByteArray} {cb : ControlBlock} :
    parse b = .ok cb ↔ 33 ≤ b.size ∧ b.size ≤ 33 + 32 * 128 ∧ (b.size - 33) % 32 = 0 ∧
      (Secp256k1.xOnlyPoint? (b.extract 1 33)).isSome ∧
      cb = ⟨b[0]?.getD 0 &&& 0xfe, b[0]?.getD 0 &&& 1, b.extract 1 33,
        chunks32 (b.extract 33 b.size)⟩ := by
  unfold parse
  split
  · rename_i hsize
    simp only [reduceCtorEq, false_iff]
    omega
  · rename_i hsize
    dsimp only
    rcases hk : Secp256k1.xOnlyPoint? (b.extract 1 33) with _ | p
    · simp
    · simp only [Except.ok.injEq, Option.isSome_some]
      constructor
      · rintro rfl; exact ⟨by omega, by omega, by omega, trivial, rfl⟩
      · rintro ⟨-, -, -, -, rfl⟩; rfl

theorem push_head_extract {b : ByteArray} (h : 33 ≤ b.size) :
    ByteArray.empty.push (b[0]?.getD 0) ++ b.extract 1 33 ++ b.extract 33 b.size = b := by
  have hhead : ByteArray.empty.push (b[0]?.getD 0) = b.extract 0 1 := by
    rw [ByteArray.extract_add_one (by omega)]
    simp [getElem?_pos b 0 (by omega : 0 < b.size)]
    rfl
  rw [hhead, ← ByteArray.extract_eq_extract_append_extract 1 (by omega) (by omega),
    ← ByteArray.extract_eq_extract_append_extract 33 (by omega) (by omega),
    ByteArray.extract_zero_size]

theorem serialize_of_parse {b : ByteArray} {cb : ControlBlock} (h : parse b = .ok cb) :
    cb.serialize = b ∧ cb.leafVersion % 2 = 0 ∧ (cb.parity = 0 ∨ cb.parity = 1) ∧
      cb.branch.length = (b.size - 33) / 32 ∧ cb.branch.length ≤ 128 := by
  obtain ⟨h33, hmax, hmod, -, rfl⟩ := parse_eq_ok_iff.mp h
  have hsize : (b.extract 33 b.size).size = b.size - 33 := by
    rw [ByteArray.size_extract, Nat.min_self]
  obtain ⟨hs, hd, hlen⟩ := exists_concatMap_hashes (b.extract 33 b.size) (by omega)
  have hbranch : chunks32 (b.extract 33 b.size) = hs := by rw [hd, chunks32_concatMap]
  obtain ⟨heven, hpar, hjoin⟩ := firstByte_split (b[0]?.getD 0)
  refine ⟨?_, heven, hpar, ?_, ?_⟩
  · rw [serialize_eq]
    dsimp only
    rw [hjoin, hbranch, ← hd, push_head_extract h33]
  · rw [hbranch, hlen, hsize]
  · rw [hbranch, hlen, hsize]
    omega

theorem serialize_parts (cb : ControlBlock) (hkey : cb.internalKey.size = 32) :
    cb.serialize[0]?.getD 0 = cb.leafVersion ||| cb.parity ∧
      cb.serialize.extract 1 33 = cb.internalKey ∧
      cb.serialize.extract 33 cb.serialize.size = concatMap Hash256.bytes cb.branch ∧
      cb.serialize.size = 33 + 32 * cb.branch.length := by
  have hbranch : (concatMap Hash256.bytes cb.branch).size = 32 * cb.branch.length := by
    rw [concatMap_size]
    simp [Hash256.size_eq, Nat.mul_comm]
  have hpush : (ByteArray.empty.push (cb.leafVersion ||| cb.parity)).size = 1 := rfl
  rw [serialize_eq]
  refine ⟨?_, ?_, ?_, ?_⟩
  · simp [ByteArray.getElem_append_left]
    rfl
  · rw [ByteArray.append_assoc, ByteArray.extract_append_size_add' (i := 0) (j := 32) hpush.symm,
      ByteArray.extract_append_eq_left hkey.symm]
  · exact ByteArray.extract_append_eq_right (by simp [hkey]) (by simp)
  · simp only [ByteArray.size_append, hpush, hkey, hbranch]

theorem parse_serialize {cb : ControlBlock} (hv : cb.leafVersion % 2 = 0)
    (hp : cb.parity = 0 ∨ cb.parity = 1) (hn : cb.branch.length ≤ 128)
    (hk : (Secp256k1.xOnlyPoint? cb.internalKey).isSome) : parse cb.serialize = .ok cb := by
  have hkey : cb.internalKey.size = 32 := by
    by_contra hne
    simp [Secp256k1.xOnlyPoint?, hne] at hk
  obtain ⟨hfirst, hkey', hrest, hsize⟩ := serialize_parts cb hkey
  obtain ⟨hlv, hpar⟩ := firstByte_join hv hp
  refine parse_eq_ok_iff.mpr ⟨by omega, by omega, by omega, by rw [hkey']; exact hk, ?_⟩
  rw [hfirst, hlv, hpar, hkey', hrest, chunks32_concatMap]

end ControlBlock

theorem control_block_round_trip :
    (∀ (b : ByteArray) (cb : ControlBlock), ControlBlock.parse b = .ok cb →
      cb.serialize = b ∧ cb.leafVersion % 2 = 0 ∧ (cb.parity = 0 ∨ cb.parity = 1) ∧
        cb.branch.length = (b.size - 33) / 32 ∧ cb.branch.length ≤ 128) ∧
    (∀ cb : ControlBlock, cb.leafVersion % 2 = 0 → (cb.parity = 0 ∨ cb.parity = 1) →
      cb.branch.length ≤ 128 → (Secp256k1.xOnlyPoint? cb.internalKey).isSome →
      ControlBlock.parse cb.serialize = .ok cb) :=
  ⟨fun _ _ h => ControlBlock.serialize_of_parse h,
    fun _ hv hp hn hk => ControlBlock.parse_serialize hv hp hn hk⟩

def generatorKey : ByteArray :=
  ⟨#[0x79, 0xbe, 0x66, 0x7e, 0xf9, 0xdc, 0xbb, 0xac, 0x55, 0xa0, 0x62, 0x95, 0xce, 0x87, 0x0b, 0x07,
    0x02, 0x9b, 0xfc, 0xdb, 0x2d, 0xce, 0x28, 0xd9, 0x59, 0xf2, 0x81, 0x5b, 0x16, 0xf8, 0x17, 0x98]⟩

/-- A tapscript control block with odd parity, the generator as internal key and one branch
hash. -/
def oddTapscriptBlock : ControlBlock := ⟨tapscriptLeafVersion, 1, generatorKey, [Hash256.zero]⟩

theorem oddTapscriptBlock_round_trip :
    (oddTapscriptBlock.leafVersion % 2 = 0 ∧
      (oddTapscriptBlock.parity = 0 ∨ oddTapscriptBlock.parity = 1) ∧
      oddTapscriptBlock.branch.length ≤ 128 ∧
      (Secp256k1.xOnlyPoint? oddTapscriptBlock.internalKey).isSome) ∧
    ControlBlock.parse oddTapscriptBlock.serialize = .ok oddTapscriptBlock := by
  have hv : oddTapscriptBlock.leafVersion % 2 = 0 := by decide
  have hp : oddTapscriptBlock.parity = 0 ∨ oddTapscriptBlock.parity = 1 := by decide
  have hn : oddTapscriptBlock.branch.length ≤ 128 := by decide
  have hk : (Secp256k1.xOnlyPoint? oddTapscriptBlock.internalKey).isSome := by decide +kernel
  exact ⟨⟨hv, hp, hn, hk⟩, control_block_round_trip.2 _ hv hp hn hk⟩

end Taproot

end BitcoinLight
