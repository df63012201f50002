import BitcoinLight.Script.Token
import BitcoinLight.Hash.Digest

set_option autoImplicit false

/-!
# Standard output scripts

Output scripts are sorted into the standard templates: witness programs (a version opcode and one
push of 2 to 40 bytes), pay-to-public-key-hash, pay-to-script-hash, data carriers, bare keys and
bare multisig. The builders write the templates that signing needs.
-/

namespace BitcoinLight.Script

/-- The standard templates of output scripts. -/
inductive Template where
  | p2pk | p2pkh | p2sh | p2wpkh | p2wsh | p2tr | witnessUnknown | multisig | nullData | nonStandard
  deriving DecidableEq, Repr

def byteAt (s : ByteArray) (i : Nat) : UInt8 := s[i]?.getD 0

/-- The version and program of a witness-program script: 4 to 42 bytes, a version opcode,
and one direct push of the rest. -/
def witnessProgram? (s : ByteArray) : Option (Nat × ByteArray) :=
  if s.size < 4 ∨ s.size > 42 then none
  else
    let v := byteAt s 0
    let version? : Option Nat :=
      if v = 0 then some 0 else if 0x51 ≤ v ∧ v ≤ 0x60 then some (v.toNat - 0x50) else none
    match version? with
    | none => none
    | some ver =>
      let len := (byteAt s 1).toNat
      if 2 ≤ len ∧ len ≤ 40 ∧ len + 2 = s.size then some (ver, s.extract 2 s.size) else none

def isP2pkh (s : ByteArray) : Bool :=
  s.size == 25 && byteAt s 0 == 0x76 && byteAt s 1 == 0xa9 && byteAt s 2 == 0x14 &&
    byteAt s 23 == 0x88 && byteAt s 24 == 0xac

def isP2sh (s : ByteArray) : Bool :=
  s.size == 23 && byteAt s 0 == 0xa9 && byteAt s 1 == 0x14 && byteAt s 22 == 0x87

def Token.data? : Token → Option ByteArray
  | .op _ => none
  | .push _ d => some d

/-- A push of a 33- or 65-byte key. -/
def Token.isKeyPush (t : Token) : Bool :=
  match t.data? with
  | some d => d.size == 33 || d.size == 65
  | none => false

/-- `m <keys> n CHECKMULTISIG` with 1 ≤ m ≤ n and exactly n key pushes. -/
def isMultisig (first : Token) (keys : List Token) (last : Token) : Bool :=
  match first.number? 1, last.number? 1 with
  | some m, some n =>
    keys.all Token.isKeyPush && n.toInt = keys.length && 1 ≤ m.toInt && m.toInt ≤ n.toInt
  | _, _ => false

/-- The template of a bare script whose tokens are known. -/
def classifyTokens (ts : List Token) : Template :=
  match ts with
  | [.push _ d, .op 0xac] => if d.size = 33 ∨ d.size = 65 then .p2pk else .nonStandard
  | first :: rest =>
    match rest.reverse with
    | .op 0xae :: last :: keysRev =>
      if isMultisig first keysRev.reverse last then .multisig else .nonStandard
    | _ => .nonStandard
  | [] => .nonStandard

/-- The template of an output script; witness programs are recognised first. -/
def classify (s : ByteArray) : Template :=
  match witnessProgram? s with
  | some (ver, prog) =>
    if ver = 0 ∧ prog.size = 20 then .p2wpkh
    else if ver = 0 ∧ prog.size = 32 then .p2wsh
    else if ver = 1 ∧ prog.size = 32 then .p2tr
    else if ver = 0 then .nonStandard
    else .witnessUnknown
  | none =>
    if isP2pkh s then .p2pkh
    else if isP2sh s then .p2sh
    else if s[0]? = some 0x6a then .nullData
    else match parse s with
      | .error _ => .nonStandard
      | .ok ts => classifyTokens ts

def taprootOutputKey? (s : ByteArray) : Option ByteArray :=
  if s.size = 34 ∧ byteAt s 0 = 0x51 ∧ byteAt s 1 = 0x20 then some (s.extract 2 34) else none

def withPrefix (pre : List UInt8) (bs : ByteArray) : ByteArray := pre.toByteArray ++ bs

def p2pkhScript (h : ByteArray) : ByteArray := withPrefix [0x76, 0xa9, 0x14] h ++ ⟨#[0x88, 0xac]⟩

def p2shScript (h : ByteArray) : ByteArray := withPrefix [0xa9, 0x14] h ++ ⟨#[0x87]⟩

def p2wpkhScript (key : ByteArray) : ByteArray := withPrefix [0x00, 0x14] (hash160 key)

def p2wshScript (ws : ByteArray) : ByteArray := withPrefix [0x00, 0x20] (sha256 ws).bytes

def p2trScript (key : ByteArray) : ByteArray := withPrefix [0x51, 0x20] key

end BitcoinLight.Script
