import BitcoinLight.Error
import BitcoinLight.Hash.Digest

set_option autoImplicit false

/-!
# Reading byte strings

A `Cursor` is a byte string with a read position. A `Read` step either yields a value or fails
with a `DecodeError`, and in both cases leaves the cursor where reading stopped: a step that fails
after reading part of its input keeps that part consumed. Every read is strict: a compact size
must be in its shortest form, and no read goes past the end.
-/

namespace BitcoinLight

/-- A byte string and the offset of the next byte to read. -/
structure Cursor where
  data : ByteArray
  pos : Nat

namespace Cursor

def start (b : ByteArray) : Cursor := ⟨b, 0⟩

def remaining (c : Cursor) : Nat := c.data.size - c.pos

end Cursor

abbrev Read := EStateM DecodeError Cursor

namespace Read

def run {α : Type} (r : Read α) (b : ByteArray) : EStateM.Result DecodeError Cursor α :=
  r (Cursor.start b)

def position : Read Nat := fun c => .ok c.pos c

def peekAt (k : Nat) : Read (Option UInt8) := fun c => .ok c.data[c.pos + k]? c

def peek : Read (Option UInt8) := peekAt 0

def bytes (n : Nat) : Read ByteArray := fun c =>
  if n ≤ c.remaining then .ok (c.data.extract c.pos (c.pos + n)) ⟨c.data, c.pos + n⟩
  else .error (.endOfData n c.pos c.remaining) c

def natLE (n : Nat) : Read Nat := do
  let b ← bytes n
  pure (b.data.foldr (fun x acc => acc * 256 + x.toNat) 0)

def u8 : Read UInt8 := do
  let v ← natLE 1
  pure v.toUInt8

def u16 : Read Nat := natLE 2

def u32 : Read UInt32 := do
  let v ← natLE 4
  pure v.toUInt32

def i32 : Read Int32 := do
  let v ← natLE 4
  pure v.toUInt32.toInt32

def u64 : Read UInt64 := do
  let v ← natLE 8
  pure v.toUInt64

def i64 : Read Int64 := do
  let v ← natLE 8
  pure v.toUInt64.toInt64

/-- Thirty-two bytes as a hash. -/
def hash : Read Hash256 := fun c =>
  match bytes 32 c with
  | .ok b c' =>
    if h : b.size = 32 then .ok ⟨b, h⟩ c' else .error (.endOfData 32 c.pos c.remaining) c
  | .error e c' => .error e c'

/-- A compact size in its shortest form. The marker byte stays read when its payload is missing,
and a value too small for its marker fails after the whole encoding is read. -/
def compactSize : Read Nat := do
  let m ← u8
  let (v, least) ← match m with
    | 0xfd => do pure ((← natLE 2), 0xfd)
    | 0xfe => do pure ((← natLE 4), 0x10000)
    | 0xff => do pure ((← natLE 8), 0x100000000)
    | _ => pure (m.toNat, 0)
  if v < least then throw (.nonCanonical v m) else pure v

/-- A compact size that is at most the number of bytes left. -/
def count : Read Nat := do
  let n ← compactSize
  let c ← get
  if n > c.remaining then throw (.countTooLarge n c.remaining) else pure n

def varBytes : Read ByteArray := do
  let n ← count
  bytes n

def finish : Read Unit := do
  let c ← get
  if c.remaining = 0 then pure () else throw (.trailing c.remaining)

/-- `n` values read one after another. -/
def many {α : Type} (r : Read α) : Nat → Read (List α)
  | 0 => pure []
  | n + 1 => do
    let x ← r
    let xs ← many r n
    pure (x :: xs)

end Read

end BitcoinLight
