import BitcoinLight.Sighash.HashType
import BitcoinLight.Tx.Encode
import BitcoinLight.Taproot.Commitment

set_option autoImplicit false

/-!
# Signature messages

The bytes a signature commits to, in the three formats. The legacy message is the transaction as
the signature sees it (other inputs blanked, outputs cut by the hash type) followed by the code.
The version-0 message (BIP143) commits to hashes of the prevouts, sequences and outputs; the
taproot message (BIP341, BIP342) also commits to every spent amount and script, the annex, and
for script spends the leaf.
-/

namespace BitcoinLight

open Word

/-- Extra data of a taproot message. -/
structure TaprootOptions where
  annexHash : Option Hash256 := none
  leafHash : Option Hash256 := none
  codeSeparatorPos : UInt32 := 0xffffffff
  deriving DecidableEq

namespace TaprootOptions

/-- The annex and leaf that a witness stack shows. -/
def ofWitness (stack : List ByteArray) : TaprootOptions :=
  { annexHash := (Taproot.annexOf? stack).map Taproot.annexHash
    leafHash :=
      match WitnessSpend.ofStack stack with
      | .scriptPath _ script cb _ =>
        match Taproot.ControlBlock.parse cb with
        | .ok c => some (Taproot.tapLeafHash c.leafVersion script)
        | .error _ => none
      | _ => none }

end TaprootOptions

/-- The transaction that a legacy signature of input `i` sees: every other script blanked, the
input's script set to `code`, other sequences zeroed unless all outputs are signed, only input
`i` with anyone-can-pay, and the outputs the base type covers (for "single", the outputs before
`i` blanked). -/
def legacyView (tx : Tx) (i : Nat) (code : ByteArray) (ht : HashType) : Tx :=
  let signed (k : Nat) (x : TxIn) : TxIn :=
    { x with
      scriptSig := if k = i then code else ByteArray.empty
      sequence := if k ≠ i ∧ ht.base ≠ .all then 0 else x.sequence }
  let inputs :=
    if ht.anyoneCanPay then (tx.inputs[i]?.map (signed i)).toList
    else tx.inputs.mapIdx signed
  let outputs :=
    match ht.base with
    | .none => []
    | .single => List.replicate i TxOut.null ++ (tx.outputs[i]?).toList
    | .all => tx.outputs
  ⟨tx.version, inputs, outputs, tx.lockTime, []⟩

/-- The legacy message, or none when there is nothing to sign: no input `i`, or "single" with
no output `i`. It is written as it goes, never building the transaction it encodes: the version,
the inputs as the signature sees them (input `i` with the script code, code separators removed,
every other script empty, other sequences zeroed unless all outputs are signed, and only input
`i` with anyone-can-pay), the outputs the base type covers (for "single" blanked ones up to `i`,
then output `i`), the lock time and the code. -/
def legacyPreimage (tx : Tx) (i : Nat) (scriptCode : ByteArray) (ht : HashType) : Option ByteArray :=
  match tx.inputs[i]? with
  | none => none
  | some input =>
    if ht.base = .single ∧ i ≥ tx.outputs.length then none
    else
      let code := Script.removeCodeSeparators scriptCode
      let signed (k : Nat) (x : TxIn) : TxIn :=
        { x with
          scriptSig := if k = i then code else ByteArray.empty
          sequence := if k ≠ i ∧ ht.base ≠ .all then 0 else x.sequence }
      let inputs :=
        if ht.anyoneCanPay then compactSize 1 ++ (signed i input).encode
        else compactSize tx.inputs.length ++
          concatMap (fun p => (signed p.2 p.1).encode) tx.inputs.zipIdx
      -- for "single" the check above leaves output `i` in place
      let outputs :=
        match ht.base with
        | .none => compactSize 0
        | .single => compactSize (i + 1) ++ concatMap TxOut.encode (List.replicate i TxOut.null) ++
            (tx.outputs.getD i TxOut.null).encode
        | .all => compactSize tx.outputs.length ++ concatMap TxOut.encode tx.outputs
      some (i32 tx.version ++ inputs ++ outputs ++ u32 tx.lockTime ++ u32 ht.code)

/-- Input `i` exists. -/
def checkInputIndex (tx : Tx) (i : Nat) : Except Error TxIn :=
  match tx.inputs[i]? with
  | some x => .ok x
  | none => .error (.inputIndex i tx.inputs.length)

/-- The version-0 message of input `i` spending `amount` under `scriptCode`. -/
def witnessV0Preimage (tx : Tx) (i : Nat) (scriptCode : ByteArray) (amount : Int64) (ht : HashType) :
    Except Error ByteArray := do
  let input ← checkInputIndex tx i
  let acp := ht.anyoneCanPay
  let hashPrevouts :=
    if acp then Hash256.zero else sha256d (concatMap (fun x => x.prevout.encode) tx.inputs)
  let hashSequence :=
    if acp || ht.base != .all then Hash256.zero else sha256d (concatMap (fun x => u32 x.sequence) tx.inputs)
  let hashOutputs :=
    match ht.base, tx.outputs[i]? with
    | .all, _ => sha256d (concatMap TxOut.encode tx.outputs)
    | .single, some o => sha256d o.encode
    | _, _ => Hash256.zero
  pure (i32 tx.version ++ hashPrevouts.bytes ++ hashSequence.bytes ++ input.prevout.encode ++
    varBytes scriptCode ++ i64 amount ++ u32 input.sequence ++ hashOutputs.bytes ++
    u32 tx.lockTime ++ u32 ht.code)

/-- The taproot message of input `i`; `prevouts` are the outputs every input spends. Checks, in
order: the hash type, the index, the number of prevouts, the output of "single", the leaf. -/
def taprootPreimage (tx : Tx) (i : Nat) (prevouts : List TxOut) (ht : HashType) (scriptPath : Bool)
    (opts : TaprootOptions) : Except Error ByteArray := do
  if !ht.validTaproot then throw (.invalidHashType ht.code)
  let input ← checkInputIndex tx i
  if prevouts.length ≠ tx.inputs.length then throw (.prevoutCount tx.inputs.length prevouts.length)
  let acp := ht.anyoneCanPay
  let txData :=
    (ByteArray.empty.push 0 |>.push ht.byte) ++ i32 tx.version ++ u32 tx.lockTime ++
    (if acp then ByteArray.empty else
      (sha256 (concatMap (fun x => x.prevout.encode) tx.inputs)).bytes ++
      (sha256 (concatMap (fun o => i64 o.value) prevouts)).bytes ++
      (sha256 (concatMap (fun o => varBytes o.scriptPubKey) prevouts)).bytes ++
      (sha256 (concatMap (fun x => u32 x.sequence) tx.inputs)).bytes) ++
    (if ht.base = .all then (sha256 (concatMap TxOut.encode tx.outputs)).bytes else ByteArray.empty)
  let spendType : UInt8 := (if scriptPath then 2 else 0) + (if opts.annexHash.isSome then 1 else 0)
  let inputData :=
    ByteArray.empty.push spendType ++
    (if acp then
      let spent := prevouts[i]?.getD TxOut.null
      input.prevout.encode ++ i64 spent.value ++ varBytes spent.scriptPubKey ++ u32 input.sequence
    else u32 i.toUInt32) ++
    ((opts.annexHash.map Hash256.bytes).getD ByteArray.empty)
  let outputData ← if ht.base = .single then
      match tx.outputs[i]? with
      | some o => pure (sha256 o.encode).bytes
      | none => throw (.inputIndex i tx.outputs.length)
    else pure ByteArray.empty
  let leafData ← if scriptPath then
      match opts.leafHash with
      | some h => pure (h.bytes.push 0 ++ u32 opts.codeSeparatorPos)
      | none => throw (.invalidArgument "script-path signature hash needs a tapleaf hash")
    else pure ByteArray.empty
  pure (txData ++ inputData ++ outputData ++ leafData)

end BitcoinLight
