import BitcoinLight.Taproot.ControlBlock

set_option autoImplicit false

/-!
# What a witness stack spends

A witness stack is read, in this order of priority, as a taproot script path (a script and a
control block of tapscript, optionally followed by an annex), a version-0 key spend (a public key
on top, alone or under one signature), a taproot key path (a 64- or 65-byte signature, optionally
with an annex), and otherwise a version-0 script spend. Each reading writes back the stack it
was read from.
-/

namespace BitcoinLight

/-- The reading of a witness stack. -/
inductive WitnessSpend where
  | empty
  | p2wpkh (signature : Option ByteArray) (pubkey : ByteArray)
  | p2wsh (args : List ByteArray) (witnessScript : ByteArray)
  | keyPath (signature : ByteArray) (annex : Option ByteArray)
  | scriptPath (args : List ByteArray) (script controlBlock : ByteArray) (annex : Option ByteArray)
  deriving DecidableEq

namespace WitnessSpend

/-- A compressed key by its marker, or an uncompressed key that is a curve point. -/
def isPublicKey (b : ByteArray) : Bool :=
  if b.size = 33 then b[0]? == some 2 || b[0]? == some 3
  else if b.size = 65 then Secp256k1.isUncompressedKey b
  else false

def isSchnorrSize (b : ByteArray) : Bool := b.size == 64 || b.size == 65

/-- The last element and the rest of a non-empty stack. -/
def splitLast? (stack : List ByteArray) : Option (List ByteArray × ByteArray) :=
  match stack.getLast? with
  | some l => some (stack.dropLast, l)
  | none => none

/-- A script-path reading: an optional annex on top, then the control block, then the script. -/
def scriptPath? (stack : List ByteArray) : Option WitnessSpend := do
  if stack.length < 2 then none
  let (annex, rest) := match splitLast? stack with
    | some (r, l) => if Taproot.isAnnex l then (some l, r) else (none, stack)
    | none => (none, stack)
  let (rest, cb) ← splitLast? rest
  let (args, script) ← splitLast? rest
  match Taproot.ControlBlock.parse cb with
  | .ok parsed =>
    if parsed.leafVersion = Taproot.tapscriptLeafVersion then some (.scriptPath args script cb annex)
    else none
  | .error _ => none

/-- Reads a witness stack. -/
def ofStack (stack : List ByteArray) : WitnessSpend :=
  match stack with
  | [] => .empty
  | _ =>
    match scriptPath? stack with
    | some w => w
    | none =>
      let keyOnTop := (stack.getLast?.map isPublicKey).getD false
      match stack with
      | [pk] =>
        if keyOnTop then .p2wpkh none pk
        else if isSchnorrSize pk then .keyPath pk none
        else .p2wsh [] pk
      | [sig, top] =>
        if keyOnTop then .p2wpkh (some sig) top
        else if isSchnorrSize sig && Taproot.isAnnex top then .keyPath sig (some top)
        else .p2wsh [sig] top
      | _ => .p2wsh stack.dropLast ((stack.getLast?).getD ByteArray.empty)

/-- The stack a reading writes. -/
def toStack : WitnessSpend → List ByteArray
  | .empty => []
  | .p2wpkh sig pk => sig.toList ++ [pk]
  | .p2wsh args ws => args ++ [ws]
  | .keyPath sig annex => sig :: annex.toList
  | .scriptPath args script cb annex => args ++ [script, cb] ++ annex.toList

/-- The annex of a taproot reading. -/
def annex? : WitnessSpend → Option ByteArray
  | .keyPath _ a => a
  | .scriptPath _ _ _ a => a
  | _ => none

end WitnessSpend

end BitcoinLight
