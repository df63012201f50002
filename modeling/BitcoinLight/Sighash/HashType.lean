import BitcoinLight.Script.Template
import BitcoinLight.Witness.Spend

set_option autoImplicit false

/-!
# Hash types and signature versions

A hash type is the 32-bit code a signature commits to. Its low five bits choose which outputs
are signed (two: none, three: the one at the input's index, anything else: all), and bit 7
signs only the input itself. The code 0 is taproot's default, which signs like "all".
The signature version picks the message format from the output being spent and the input's
script and witness.
-/

namespace BitcoinLight

/-- Which outputs a signature covers. -/
inductive BaseType where
  | all | none | single
  deriving DecidableEq, Repr

/-- A signature hash type, kept as its raw code. -/
structure HashType where
  code : UInt32
  deriving DecidableEq, Repr

namespace HashType

def anyoneCanPay (h : HashType) : Bool := h.code != 0 && h.code &&& 0x80 != 0

/-- The outputs covered: low five bits 2 for none, 3 for the matching one, else all. -/
def base (h : HashType) : BaseType :=
  if h.code = 0 then .all
  else match (h.code &&& 0x1f).toNat with
    | 2 => .none
    | 3 => .single
    | _ => .all

def byte (h : HashType) : UInt8 := h.code.toUInt8

def validTaproot (h : HashType) : Bool :=
  h.code ≤ 3 || (0x81 ≤ h.code && h.code ≤ 0x83)

end HashType

/-- The message format of a signature. -/
inductive SigVersion where
  | base | witnessV0 | taprootKeyPath | taprootScriptPath
  deriving DecidableEq, Repr

namespace SigVersion

def isTaproot : SigVersion → Bool
  | .taprootKeyPath | .taprootScriptPath => true
  | _ => false

/-- The format of a spend of `scriptPubKey` by an input with `scriptSig` and `witness`: taproot
outputs by their witness, version-0 programs directly or nested in pay-to-script-hash, and all
other outputs by the legacy format. -/
def forSpend (scriptPubKey scriptSig : ByteArray) (witness : List ByteArray) : SigVersion :=
  match Script.classify scriptPubKey with
  | .p2tr =>
    match WitnessSpend.ofStack witness with
    | .scriptPath .. => .taprootScriptPath
    | _ => .taprootKeyPath
  | .p2wpkh | .p2wsh => .witnessV0
  | .p2sh =>
    match (Script.lastPush scriptSig).bind Script.witnessProgram? with
    | some (0, _) => .witnessV0
    | _ => .base
  | _ => .base

end SigVersion

end BitcoinLight
