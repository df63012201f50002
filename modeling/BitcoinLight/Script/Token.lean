import BitcoinLight.Error
import BitcoinLight.Bytes.Word

set_option autoImplicit false

/-!
# Script tokens

A script is a sequence of opcodes; opcodes `0x01` to `0x4b` push that many bytes, and
`0x4c`, `0x4d`, `0x4e` push a number of bytes given by the next 1, 2 or 4 little-endian bytes.
`nextOp` decodes the opcode at an offset; a push that runs past the end has no decoding.
Tokenising fails at a truncated push; code-separator removal and the last push instead stop
there, copying or ignoring what follows.
-/

namespace BitcoinLight.Script

/-- One element of a script: a plain opcode, or a push with the opcode that introduced it. -/
inductive Token where
  | op (code : UInt8)
  | push (code : UInt8) (data : ByteArray)
  deriving DecidableEq

/-- The decoding of one opcode: the opcode, the range of pushed bytes, and the next offset. -/
structure OpStep where
  code : UInt8
  data : Option (Nat × Nat)
  next : Nat

def natAt (s : ByteArray) (i n : Nat) : Nat :=
  (List.range n).foldr (fun k acc => acc * 256 + (s[i + k]?.getD 0).toNat) 0

def pushStep (s : ByteArray) (code : UInt8) (start len : Nat) : Option OpStep :=
  if start + len ≤ s.size then some ⟨code, some (start, start + len), start + len⟩ else none

/-- Decodes the opcode at `pos`; none at the end or for a truncated push. -/
def nextOp (s : ByteArray) (pos : Nat) : Option OpStep :=
  match s[pos]? with
  | none => none
  | some code =>
    if 1 ≤ code.toNat ∧ code.toNat ≤ 0x4b then pushStep s code (pos + 1) code.toNat
    else if code = 0x4c then
      if pos + 2 ≤ s.size then pushStep s code (pos + 2) (natAt s (pos + 1) 1) else none
    else if code = 0x4d then
      if pos + 3 ≤ s.size then pushStep s code (pos + 3) (natAt s (pos + 1) 2) else none
    else if code = 0x4e then
      if pos + 5 ≤ s.size then pushStep s code (pos + 5) (natAt s (pos + 1) 4) else none
    else some ⟨code, none, pos + 1⟩

theorem pushStep_next {s : ByteArray} {code : UInt8} {start len : Nat} {st : OpStep}
    (h : pushStep s code start len = some st) : start ≤ st.next := by
  unfold pushStep at h
  split at h
  · cases h; simp
  · cases h

theorem nextOp_lt {s : ByteArray} {pos : Nat} {st : OpStep} (h : nextOp s pos = some st) :
    pos < s.size ∧ pos < st.next := by
  unfold nextOp at h
  split at h
  · cases h
  · rename_i code hc
    have hp : pos < s.size := by
      rcases Nat.lt_or_ge pos s.size with hlt | hge
      · exact hlt
      · simp [hge] at hc
    refine ⟨hp, ?_⟩
    split at h
    · have := pushStep_next h; omega
    · split at h
      · split at h
        · have := pushStep_next h; omega
        · cases h
      · split at h
        · split at h
          · have := pushStep_next h; omega
          · cases h
        · split at h
          · split at h
            · have := pushStep_next h; omega
            · cases h
          · cases h; simp

/-- The token of a decoded opcode. -/
def OpStep.token (s : ByteArray) (st : OpStep) : Token :=
  match st.data with
  | some (a, b) => .push st.code (s.extract a b)
  | none => .op st.code

/-- The tokens from offset `pos` on; fails at the offset of a truncated push. -/
def parseFrom (s : ByteArray) (pos : Nat) : Except ScriptError (List Token) :=
  if _hp : pos < s.size then
    match h : nextOp s pos with
    | none => .error (.truncatedPush pos)
    | some st =>
      have := nextOp_lt h
      (parseFrom s st.next).map (st.token s :: ·)
  else .ok []
termination_by s.size - pos

def parse (s : ByteArray) : Except ScriptError (List Token) := parseFrom s 0

/-- The bytes of a token: opcode, the length field its opcode asks for, the data. -/
def Token.encode : Token → ByteArray
  | .op c => ByteArray.empty.push c
  | .push c d =>
    let lenField :=
      if c = 0x4c then Word.le 1 d.size
      else if c = 0x4d then Word.le 2 d.size
      else if c = 0x4e then Word.le 4 d.size
      else ByteArray.empty
    ByteArray.empty.push c ++ lenField ++ d

def encodeTokens (ts : List Token) : ByteArray :=
  ts.foldl (fun acc t => acc ++ t.encode) ByteArray.empty

/-- Copies the script from `seg` on, dropping each code separator found from `pos` on; at a
truncated push the rest is copied unchanged. -/
def removeSeparatorsFrom (s : ByteArray) (seg pos : Nat) : ByteArray :=
  match h : nextOp s pos with
  | none => s.extract seg s.size
  | some st =>
    have := nextOp_lt h
    if st.code = 0xab then s.extract seg pos ++ removeSeparatorsFrom s st.next st.next
    else removeSeparatorsFrom s seg st.next
termination_by s.size - pos

def removeCodeSeparators (s : ByteArray) : ByteArray := removeSeparatorsFrom s 0 0

/-- The data of the last token read from `pos` on, given the data of the token before. -/
def lastPushFrom (s : ByteArray) (pos : Nat) (last : Option ByteArray) : Option ByteArray :=
  match h : nextOp s pos with
  | none => last
  | some st =>
    have := nextOp_lt h
    lastPushFrom s st.next (st.data.map (fun r => s.extract r.1 r.2))
termination_by s.size - pos

def lastPush (s : ByteArray) : Option ByteArray := lastPushFrom s 0 none

/-- The shortest push of `d`. -/
def pushData (d : ByteArray) : ByteArray :=
  let code : UInt8 :=
    if d.size ≤ 0x4b then d.size.toUInt8
    else if d.size ≤ 0xff then 0x4c
    else if d.size ≤ 0xffff then 0x4d
    else 0x4e
  (Token.push code d).encode

/-! ## Script numbers

A script number is little-endian sign and magnitude: the top bit of the last byte is the sign.
Decoding works in 64-bit words whose shifts take their amount modulo 64; for at most eight bytes
no bit is lost, and the result is the signed magnitude exactly.
-/

/-- Decodes a script number of at most `limit` bytes. -/
def decodeNumber (b : ByteArray) (limit : Nat) : Except ScriptError Int64 :=
  if b.size > limit then .error (.numberTooLong b.size limit)
  else if b.size = 0 then .ok 0
  else
    let bytes := b.toList
    let value := (List.range bytes.length).zip bytes |>.foldl
      (fun (acc : Int64) (p : Nat × UInt8) => acc ||| (p.2.toUInt64.toInt64 <<< (8 * p.1).toInt64)) 0
    let lastByte := bytes.getLast?.getD 0
    if lastByte &&& 0x80 != 0 then
      let mask := ~~~((0x80 : Int64) <<< (8 * (bytes.length - 1)).toInt64)
      .ok (-(value &&& mask))
    else .ok value

/-- The number a token pushes: small-number opcodes, or a decodable push of at most `limit` bytes. -/
def Token.number? (t : Token) (limit : Nat) : Option Int64 :=
  match t with
  | .op 0 => some 0
  | .op 0x4f => some (-1)
  | .op c => if 0x51 ≤ c ∧ c ≤ 0x60 then some (c - 0x50).toUInt64.toInt64 else none
  | .push _ d => match decodeNumber d limit with
    | .ok v => some v
    | .error _ => none

end BitcoinLight.Script
