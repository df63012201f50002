import BitcoinLight.Taproot.ControlBlock

set_option autoImplicit false

/-!
# Script trees and the output-key tweak

Leaves and branches of a script tree are tagged hashes; a branch hashes its two children in
byte order, so it does not depend on which side each came from. The output key is the internal
key plus t·G, where t is the tagged hash of the internal key and the tree's root.
-/

namespace BitcoinLight.Taproot

open Secp256k1

def tapLeafHash (leafVersion : UInt8) (script : ByteArray) : Hash256 :=
  taggedHash "TapLeaf" (ByteArray.empty.push leafVersion ++ Word.varBytes script)

def tapBranchHash (a b : Hash256) : Hash256 :=
  if Hash256.compareBytes a b != .gt then taggedHash "TapBranch" (a.bytes ++ b.bytes)
  else taggedHash "TapBranch" (b.bytes ++ a.bytes)

def tapTweakHash (internalKey : ByteArray) (root : Option Hash256) : Hash256 :=
  taggedHash "TapTweak" (internalKey ++ (root.map Hash256.bytes).getD ByteArray.empty)

def merkleRoot (leaf : Hash256) (branch : List Hash256) : Hash256 :=
  branch.foldl tapBranchHash leaf

/-- The tweaked point internal + t·G, for a tweak below the group order. -/
def tweakedPoint (internal : Point) (tweak : Hash256) : Except ScriptError Point :=
  let t := tweak.toNatBE
  if t ≥ groupOrder then .error .tweakOverflow
  else .ok (internal.add (generator.smul t))

/-- The output key and its parity for an internal key and optional tree root. -/
def tweakInternalKey (internalKey : ByteArray) (root : Option Hash256) :
    Except ScriptError (Hash256 × Nat) := do
  let p ← match xOnlyPoint? internalKey with
    | some p => pure p
    | none => throw .badInternalKey
  match ← tweakedPoint p (tapTweakHash internalKey root) with
  | .infinity => throw .tweakFailed
  | .affine x y => pure (Hash256.ofNatBE x, y % 2)

/-- The script, with the control block's branch, commits to the output key and its parity. -/
def verifyCommitment (outputKey : ByteArray) (script : ByteArray) (cb : ControlBlock) :
    Except ScriptError Bool := do
  let root := merkleRoot (tapLeafHash cb.leafVersion script) cb.branch
  let (expected, parity) ← tweakInternalKey cb.internalKey (some root)
  pure (expected.bytes == outputKey && parity == cb.parity.toNat)

/-- The output key with the given parity is the internal key tweaked by the root. -/
def tweakAddCheck (internalKey outputKey : ByteArray) (parity : Nat) (root : Option Hash256) :
    Except ScriptError Bool := do
  let p ← match xOnlyPoint? internalKey with
    | some p => pure p
    | none => throw .badInternalKey
  if (xOnlyPoint? outputKey).isNone then throw .badOutputKey
  if parity > 1 then throw (.badParity parity)
  match ← tweakedPoint p (tapTweakHash internalKey root) with
  | .infinity => pure false
  | .affine x y => pure ((Hash256.ofNatBE x).bytes == outputKey && y % 2 == parity)

end BitcoinLight.Taproot
