import BitcoinLight.Sighash.Preimage

set_option autoImplicit false

/-!
# Signature hashes of spends

The script a signature commits to comes from the output being spent: for pay-to-script-hash the
redeem script (the last push of the input's script), for version-0 key programs the equivalent
pay-to-key-hash script, for version-0 script programs the witness script, which must hash to the
program. A legacy signature with nothing to sign commits to the number one, the error hash.
-/

namespace BitcoinLight

/-- The hash a legacy signature commits to when there is nothing to sign: the number one,
little-endian. -/
def errorHash : Hash256 := Hash256.ofNatBE (2 ^ 248)

def Tx.scriptSigOf (tx : Tx) (i : Nat) : ByteArray :=
  (tx.inputs[i]?.map TxIn.scriptSig).getD ByteArray.empty

/-- The script code of a version-0 spend of `spk` by input `i`. -/
def witnessV0ScriptCode (tx : Tx) (i : Nat) (spk : ByteArray) : Except Error ByteArray :=
  let prog :=
    if Script.classify spk = .p2sh then (Script.lastPush (tx.scriptSigOf i)).getD ByteArray.empty
    else spk
  match Script.witnessProgram? prog with
  | some (0, p) =>
    if p.size = 20 then .ok (Script.p2pkhScript p)
    else if p.size = 32 then
      match (tx.witness? i).bind (fun w => w.stack.getLast?) with
      | none => .error (.invalidScript (.missingWitnessScript i))
      | some ws =>
        if (sha256 ws).bytes = p then .ok ws else .error (.invalidScript .witnessScriptMismatch)
    else .ok prog
  | _ => .ok prog

def legacyScriptCode (tx : Tx) (i : Nat) (spk : ByteArray) : ByteArray :=
  if Script.classify spk = .p2sh then (Script.lastPush (tx.scriptSigOf i)).getD spk else spk

/-- The one output that a legacy or version-0 input spends. -/
def singleFunding (funding : List TxOut) : Except Error TxOut :=
  match funding with
  | [o] => .ok o
  | _ => .error (.prevoutCount 1 funding.length)

/-- The bytes hashed for a signature of input `i`. -/
def serializeForSignature (tx : Tx) (i : Nat) (funding : List TxOut) (ht : HashType)
    (sv : SigVersion) (opts : TaprootOptions) : Except Error ByteArray :=
  match sv with
  | .base =>
    if i ≥ tx.inputs.length then .ok errorHash.bytes
    else do
      let f ← singleFunding funding
      pure ((legacyPreimage tx i (legacyScriptCode tx i f.scriptPubKey) ht).getD errorHash.bytes)
  | .witnessV0 => do
    discard (checkInputIndex tx i)
    let f ← singleFunding funding
    let code ← witnessV0ScriptCode tx i f.scriptPubKey
    witnessV0Preimage tx i code f.value ht
  | .taprootKeyPath => taprootPreimage tx i funding ht false opts
  | .taprootScriptPath =>
    let opts' :=
      if opts.leafHash.isNone then
        { opts with leafHash := (tx.witness? i).bind (fun w => (TaprootOptions.ofWitness w.stack).leafHash) }
      else opts
    taprootPreimage tx i funding ht true opts'

/-- The hash a signature of input `i` signs: double SHA-256 of the message, or the tagged hash
"TapSighash" for taproot. -/
def hashForSignature (tx : Tx) (i : Nat) (funding : List TxOut) (ht : HashType)
    (sv : SigVersion) (opts : TaprootOptions) : Except Error Hash256 :=
  match sv with
  | .base =>
    if i < tx.inputs.length then do
      let f ← singleFunding funding
      match legacyPreimage tx i (legacyScriptCode tx i f.scriptPubKey) ht with
      | some p => pure (sha256d p)
      | none => pure errorHash
    else .ok errorHash
  | _ => do
    let p ← serializeForSignature tx i funding ht sv opts
    pure (if sv.isTaproot then taggedHash "TapSighash" p else sha256d p)

/-- The signature hash with taproot options taken from the input's own witness. -/
def hashForInput (tx : Tx) (i : Nat) (funding : List TxOut) (ht : HashType) (sv : SigVersion) :
    Except Error Hash256 :=
  let opts := match tx.witness? i with
    | some w => if sv.isTaproot then TaprootOptions.ofWitness w.stack else {}
    | none => {}
  hashForSignature tx i funding ht sv opts

end BitcoinLight
