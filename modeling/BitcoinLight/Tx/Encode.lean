import BitcoinLight.Tx.Basic
import BitcoinLight.Bytes.Word

set_option autoImplicit false

/-!
# Writing transactions

The wire encoding: version, inputs, outputs and lock time, with the marker `00 01` and one
witness stack per input when witness data is written. Identifiers hash the encoding twice;
sizes and weight are given by formulas over the parts, which agree with the encoding's length.
-/

namespace BitcoinLight

open Word

def OutPoint.encode (o : OutPoint) : ByteArray := o.txid.bytes ++ u32 o.index

def TxIn.encode (i : TxIn) : ByteArray := i.prevout.encode ++ varBytes i.scriptSig ++ u32 i.sequence

def TxOut.encode (o : TxOut) : ByteArray := i64 o.value ++ varBytes o.scriptPubKey

def Witness.encode (w : Witness) : ByteArray :=
  w.stack.foldl (fun acc x => acc ++ varBytes x) (compactSize w.stack.length)

def Witness.serializedSize (w : Witness) : Nat :=
  compactSizeLen w.stack.length + (w.stack.map (fun x => compactSizeLen x.size + x.size)).sum

def concatMap {α : Type} (f : α → ByteArray) (xs : List α) : ByteArray :=
  xs.foldl (fun acc x => acc ++ f x) ByteArray.empty

namespace Tx

/-- The encoding, with or without the witness section. -/
def encode (tx : Tx) (withWitness : Bool) : ByteArray :=
  let head := i32 tx.version ++ (if withWitness then ⟨#[0, 1]⟩ else ByteArray.empty)
  let body := compactSize tx.inputs.length ++ concatMap TxIn.encode tx.inputs ++
    compactSize tx.outputs.length ++ concatMap TxOut.encode tx.outputs
  let wits := if withWitness then
      concatMap (fun k => ((tx.witness? k).getD ⟨[]⟩).encode) (List.range tx.inputs.length)
    else ByteArray.empty
  head ++ body ++ wits ++ u32 tx.lockTime

def serialize (tx : Tx) : ByteArray := tx.encode tx.hasWitness

def serializeWithoutWitness (tx : Tx) : ByteArray := tx.encode false

def txid (tx : Tx) : Hash256 := sha256d tx.serializeWithoutWitness

def wtxid (tx : Tx) : Hash256 := sha256d tx.serialize

/-- The size of the encoding without witness data. -/
def baseSize (tx : Tx) : Nat :=
  4 + compactSizeLen tx.inputs.length +
    (tx.inputs.map (fun i => 36 + compactSizeLen i.scriptSig.size + i.scriptSig.size + 4)).sum +
    compactSizeLen tx.outputs.length +
    (tx.outputs.map (fun o => 8 + compactSizeLen o.scriptPubKey.size + o.scriptPubKey.size)).sum + 4

/-- The size of the full encoding; a missing stack is written as one zero byte. -/
def totalSize (tx : Tx) : Nat :=
  if tx.hasWitness then
    tx.baseSize + 2 +
      ((List.range tx.inputs.length).map (fun k => ((tx.witness? k).map Witness.serializedSize).getD 1)).sum
  else tx.baseSize

def weight (tx : Tx) : Nat := 3 * tx.baseSize + tx.totalSize

def vsize (tx : Tx) : Nat := (tx.weight + 3) / 4

end Tx

end BitcoinLight
