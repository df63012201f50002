import BitcoinLight.Bytes.Word

set_option autoImplicit false

/-!
# Hexadecimal text of byte strings

Bytes are written as two lowercase digits each, most significant nibble first. Reading accepts
digits of either case, checks the length before any digit, and reports the first byte of the
text that is not a digit together with its byte offset.
-/

namespace BitcoinLight.Hex

def digit (n : UInt8) : Char :=
  if n < 10 then Char.ofNat (48 + n.toNat) else Char.ofNat (87 + n.toNat)

def encode (b : ByteArray) : String :=
  b.foldl (fun s x => (s.push (digit (x >>> 4))).push (digit (x &&& 15))) ""

/-- The value of one text byte read as a hexadecimal digit, of either case. -/
def nibble? (c : UInt8) : Option UInt8 :=
  if 48 ≤ c ∧ c ≤ 57 then some (c - 48)
  else if 97 ≤ c ∧ c ≤ 102 then some (c - 87)
  else if 65 ≤ c ∧ c ≤ 70 then some (c - 55)
  else none

/-- Why a text is not hexadecimal. -/
inductive HexError where
  /-- The text has an odd number of bytes. -/
  | oddLength
  /-- The byte at `index` is no digit; `c` is that byte read as a code point. -/
  | invalidChar (c : Char) (index : Nat)
  deriving DecidableEq, Repr

/-- A code point is shown literally unless it is a control character or a soft hyphen,
which are shown as a braced hexadecimal escape; quote and backslash get a backslash. -/
def quoteChar (c : Char) : String :=
  let n := c.toNat
  let body :=
    if c = '\\' then "\\\\"
    else if c = '\'' then "\\'"
    else if c = '\n' then "\\n"
    else if c = '\r' then "\\r"
    else if c = '\t' then "\\t"
    else if c = '\x00' then "\\0"
    else if n < 32 ∨ (127 ≤ n ∧ n < 160) ∨ n = 173 then
      "\\u" ++ "\x7b" ++ encodeNat n ++ "\x7d"
    else c.toString
  "'" ++ body ++ "'"
where
  /-- Lowercase hexadecimal of a number below 256 without leading zeros. -/
  encodeNat (n : Nat) : String :=
    if n < 16 then (digit n.toUInt8).toString
    else (digit (n / 16).toUInt8).toString ++ (digit (n % 16).toUInt8).toString

def HexError.message : HexError → String
  | .oddLength => "Odd number of digits"
  | .invalidChar c i => "Invalid character " ++ quoteChar c ++ " at position " ++ toString i

/-- Reads digit pairs from a list of text bytes starting at byte offset `i`. -/
def decodePairs : List UInt8 → Nat → Except HexError (List UInt8)
  | [], _ => .ok []
  | [c], i => .error (.invalidChar (Char.ofNat c.toNat) i)
  | hi :: lo :: rest, i =>
    match nibble? hi with
    | none => .error (.invalidChar (Char.ofNat hi.toNat) i)
    | some h =>
      match nibble? lo with
      | none => .error (.invalidChar (Char.ofNat lo.toNat) (i + 1))
      | some l => (decodePairs rest (i + 2)).map (fun t => (h <<< 4 ||| l) :: t)

/-- Reads a hexadecimal text; the length is checked first, then each digit in order. -/
def decode (s : String) : Except HexError ByteArray :=
  let raw := s.toUTF8
  if raw.size % 2 = 1 then .error .oddLength
  else (decodePairs raw.toList 0).map List.toByteArray

end BitcoinLight.Hex
