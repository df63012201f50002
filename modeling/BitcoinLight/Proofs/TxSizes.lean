import BitcoinLight.Proofs.SignatureHash
import BitcoinLight.Proofs.TaprootMessage

set_option autoImplicit false

/-!
# Sizes and weight of a transaction

A transaction reports two sizes computed from its parts without writing it: the base size
(version, inputs, outputs and lock time, each length-prefixed part with its compact size) and the
total size, which adds the marker and flag and one witness stack per input when some stack is
non-empty, an input with no stack counting as the one zero byte written for it. Both are the
lengths of the encodings they stand for, whether the transaction lists fewer stacks than inputs
or more, and for lengths on either side of every compact-size boundary.

Weight counts base bytes four times and witness bytes once, so it lies between four times the
base size and four times the total size; the virtual size, a quarter of the weight rounded up,
is then at most the total size.
-/

namespace BitcoinLight

open Word

theorem TxIn.encode_size_eq (x : TxIn) :
    x.encode.size = 36 + compactSizeLen x.scriptSig.size + x.scriptSig.size + 4 := by
  simp only [TxIn.encode, ByteArray.size_append, OutPoint.encode_size, varBytes_size, u32,
    le_size]
  omega

theorem TxOut.encode_size_eq (o : TxOut) :
    o.encode.size = 8 + compactSizeLen o.scriptPubKey.size + o.scriptPubKey.size := by
  simp only [TxOut.encode, ByteArray.size_append, varBytes_size, i64, le_size]
  omega

theorem Witness.encode_size (w : Witness) : w.encode.size = w.serializedSize := by
  have h := congrArg List.length (Witness.encode_toList w)
  simp only [Array.length_toList, ByteArray.size_data, List.length_append, List.length_flatMap,
    compactSize_size, varBytes_size] at h
  rw [h, Witness.serializedSize]

theorem witnessSection_size (tx : Tx) :
    (concatMap (fun k => ((tx.witness? k).getD ⟨[]⟩).encode) (List.range tx.inputs.length)).size =
      ((List.range tx.inputs.length).map
        (fun k => ((tx.witness? k).map Witness.serializedSize).getD 1)).sum := by
  rw [concatMap_size]
  congr 1
  apply List.map_congr_left
  intro k _
  cases tx.witness? k <;> simp [Witness.encode_size, Witness.serializedSize, compactSizeLen]

theorem Tx.encode_size (tx : Tx) (w : Bool) :
    (tx.encode w).size = tx.baseSize +
      if w then 2 + ((List.range tx.inputs.length).map
        (fun k => ((tx.witness? k).map Witness.serializedSize).getD 1)).sum else 0 := by
  have hin : (concatMap TxIn.encode tx.inputs).size =
      (tx.inputs.map fun i => 36 + compactSizeLen i.scriptSig.size + i.scriptSig.size + 4).sum := by
    simp only [concatMap_size, TxIn.encode_size_eq]
  have hout : (concatMap TxOut.encode tx.outputs).size =
      (tx.outputs.map fun o => 8 + compactSizeLen o.scriptPubKey.size + o.scriptPubKey.size).sum := by
    simp only [concatMap_size, TxOut.encode_size_eq]
  cases w
  · simp only [Tx.encode, Bool.false_eq_true, ↓reduceIte, ByteArray.size_append, i32, u32,
      le_size, compactSize_size, hin, hout, ByteArray.size_empty, Tx.baseSize]
    omega
  · have hmark : (⟨#[0, 1]⟩ : ByteArray).size = 2 := rfl
    simp only [Tx.encode, ↓reduceIte, ByteArray.size_append, i32, u32, le_size, hmark,
      compactSize_size, hin, hout, witnessSection_size, Tx.baseSize]
    omega

theorem Tx.serializeWithoutWitness_size_eq (tx : Tx) :
    tx.serializeWithoutWitness.size = tx.baseSize := by
  rw [Tx.serializeWithoutWitness, Tx.encode_size, if_neg Bool.false_ne_true, Nat.add_zero]

theorem Tx.serialize_size (tx : Tx) : tx.serialize.size = tx.totalSize := by
  rw [Tx.serialize, Tx.encode_size, Tx.totalSize]
  cases tx.hasWitness
  · rfl
  · simp only [↓reduceIte, Nat.add_assoc]

theorem Tx.baseSize_le_totalSize (tx : Tx) : tx.baseSize ≤ tx.totalSize := by
  unfold Tx.totalSize
  split <;> omega

theorem encoded_sizes_and_weight (tx : Tx) :
    tx.serialize.size = tx.totalSize ∧ tx.serializeWithoutWitness.size = tx.baseSize ∧
      tx.weight = 3 * tx.serializeWithoutWitness.size + tx.serialize.size ∧
      4 * tx.baseSize ≤ tx.weight ∧ tx.weight ≤ 4 * tx.totalSize ∧
      tx.weight ≤ 4 * tx.vsize ∧ tx.vsize ≤ tx.totalSize := by
  have hs := tx.serialize_size
  have hb := tx.serializeWithoutWitness_size_eq
  have hle := tx.baseSize_le_totalSize
  refine ⟨hs, hb, ?_, ?_, ?_, ?_, ?_⟩ <;> simp only [Tx.weight, Tx.vsize, hs, hb] <;> omega

end BitcoinLight
