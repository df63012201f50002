import BitcoinLight.Bytes.Hex

set_option autoImplicit false

/-!
# Failures of the library

Each failure is a cause with the data that explains it; `Error.message` is the only place that
turns a cause into text. Decoding and script failures have their own cause types because many
operations share them; the chain and store failures carry the detail text built where they arise.
-/

namespace BitcoinLight

/-- Why a byte string does not decode. -/
inductive DecodeError where
  /-- The text is not hexadecimal. -/
  | badHex (cause : Hex.HexError)
  /-- A hash text does not hold exactly 32 bytes. -/
  | hashLength
  /-- `need` bytes were asked for at offset `pos` with only `left` bytes left. -/
  | endOfData (need pos left : Nat)
  /-- A compact size used a longer form than its value needs. -/
  | nonCanonical (value : Nat) (marker : UInt8)
  /-- A length prefix promises more items or bytes than remain. -/
  | countTooLarge (count left : Nat)
  /-- Bytes remain after a complete value. -/
  | trailing (left : Nat)
  /-- A witness section was announced but every stack in it is empty. -/
  | superfluousWitness
  deriving DecidableEq, Repr

/-- Why a script, key or witness program is rejected. -/
inductive ScriptError where
  /-- The push starting at offset `pos` runs past the end of the script. -/
  | truncatedPush (pos : Nat)
  /-- A script number is longer than the limit of its use. -/
  | numberTooLong (len limit : Nat)
  /-- A lock-time script does not start with a number. -/
  | lockNotNumber
  /-- A lock-time number is negative or above 32 bits. -/
  | lockTimeRange (value : Int)
  /-- A control block has a size outside 33 + 32k, k ≤ 128. -/
  | controlBlockSize (len : Nat)
  /-- The internal key is no x coordinate of a curve point. -/
  | badInternalKey
  /-- The output key is no x coordinate of a curve point. -/
  | badOutputKey
  /-- A parity other than 0 or 1. -/
  | badParity (value : Nat)
  /-- The tweak hash is not below the group order. -/
  | tweakOverflow
  /-- Adding the tweak gave the point at infinity. -/
  | tweakFailed
  /-- A P2WSH spend whose input has no witness script. -/
  | missingWitnessScript (input : Nat)
  /-- The witness script does not hash to the P2WSH program. -/
  | witnessScriptMismatch
  deriving DecidableEq, Repr

/-- Every failure of the library. -/
inductive Error where
  | duplicateHeaders (detail : String)
  | invalidBlockHeader (detail : String)
  | unknownBlockHash (detail : String)
  | unknownFilterHash (detail : String)
  | duplicateFilters (detail : String)
  | invalidFilterHeader (detail : String)
  | inputIndex (index inputs : Nat)
  | incompatibleLockTimes (current required : Nat)
  | invalidHashType (code : UInt32)
  | prevoutCount (expected found : Nat)
  | invalidScript (cause : ScriptError)
  | invalidProofOfWork (bits : UInt32)
  | decode (cause : DecodeError)
  | invalidArgument (detail : String)
  | chainState (detail : String)
  | config (detail : String)
  | cancelled
  | store (detail : String)
  deriving DecidableEq, Repr

def hexNat (n : Nat) : String :=
  "0x" ++ String.ofList (Nat.toDigits 16 n)

def hexWord (n : Nat) : String :=
  let ds := Nat.toDigits 16 n
  "0x" ++ String.ofList (List.replicate (8 - ds.length) '0' ++ ds)

/-- The text of a decoding failure. -/
def DecodeError.message : DecodeError → String
  | .badHex e => "bad hex: " ++ e.message
  | .hashLength => "hash must be 32 bytes"
  | .endOfData need pos left =>
    s!"unexpected end of data: need {need} bytes at offset {pos}, {left} left"
  | .nonCanonical v m => s!"non-canonical compact size {v} with prefix " ++ hexNat m.toNat
  | .countTooLarge c left => s!"count {c} exceeds remaining {left} bytes"
  | .trailing n => s!"{n} trailing bytes"
  | .superfluousWitness => "superfluous witness record"

/-- The text of a script failure. -/
def ScriptError.message : ScriptError → String
  | .truncatedPush pos => s!"truncated push at offset {pos}"
  | .numberTooLong len limit => s!"script number of {len} bytes exceeds {limit}"
  | .lockNotNumber => "CLTV script does not start with a number"
  | .lockTimeRange v => s!"lock time {v} out of range"
  | .controlBlockSize len => s!"invalid control block size {len}"
  | .badInternalKey => "invalid internal key: malformed public key"
  | .badOutputKey => "invalid output key: malformed public key"
  | .badParity v => s!"invalid parity: invalid value {v} for Parity - must be 0 or 1"
  | .tweakOverflow => "tweak exceeds curve order"
  | .tweakFailed => "tweak failed: bad tweak"
  | .missingWitnessScript i => s!"input {i} has no witness script"
  | .witnessScriptMismatch => "witness script does not match P2WSH program"

/-- The text of a failure: a kind phrase, then its detail. -/
def Error.message : Error → String
  | .duplicateHeaders d => "Duplicate block headers: " ++ d
  | .invalidBlockHeader d => "Invalid block header: " ++ d
  | .unknownBlockHash d => "Unknown block hash: " ++ d
  | .unknownFilterHash d => "Unknown filter hash: " ++ d
  | .duplicateFilters d => "Duplicate filters: " ++ d
  | .invalidFilterHeader d => "Invalid filter header: " ++ d
  | .inputIndex i n => s!"Input index {i} out of range ({n} inputs)"
  | .incompatibleLockTimes c r =>
    s!"Incompatible lock times: cannot combine lock time {c} with {r}"
  | .invalidHashType code => "Invalid hash type: " ++ hexNat code.toNat
  | .prevoutCount e f => s!"Expected {e} funding outputs, got {f}"
  | .invalidScript e => "Invalid script: " ++ e.message
  | .invalidProofOfWork bits =>
    "Invalid proof of work: bits " ++ hexWord bits.toNat ++ " do not encode a usable target"
  | .decode e => "Serialization error: " ++ e.message
  | .invalidArgument d => "Invalid argument: " ++ d
  | .chainState d => "Chain state error: " ++ d
  | .config d => "Configuration error: " ++ d
  | .cancelled => "Operation cancelled"
  | .store d => "Store error: " ++ d

end BitcoinLight
