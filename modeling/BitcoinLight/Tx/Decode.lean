import BitcoinLight.Tx.Basic
import BitcoinLight.Bytes.Reader

set_option autoImplicit false

/-!
# Reading transactions

A transaction is read with the witness section exactly when the two bytes after the version are
`00 01`. A witness section whose stacks are all empty is refused, since writing never produces it,
and `Tx.parse` refuses bytes after the lock time.
-/

namespace BitcoinLight

namespace Read

/-- An outpoint. -/
def outPoint : Read OutPoint := do
  let h ← hash
  let i ← u32
  pure ⟨h, i⟩

/-- An input. -/
def txIn : Read TxIn := do
  let p ← outPoint
  let s ← varBytes
  let q ← u32
  pure ⟨p, s, q⟩

/-- An output. -/
def txOut : Read TxOut := do
  let v ← i64
  let s ← varBytes
  pure ⟨v, s⟩

/-- A witness stack. -/
def witness : Read Witness := do
  let n ← count
  let items ← many varBytes n
  pure ⟨items⟩

/-- A transaction, leaving any bytes after it unread. -/
def tx : Read Tx := do
  let version ← i32
  let m ← peek
  let f ← peekAt 1
  let segwit := m == some 0 && f == some 1
  if segwit then discard (bytes 2)
  let nIn ← count
  let inputs ← many txIn nIn
  let nOut ← count
  let outputs ← many txOut nOut
  let witnesses ← if segwit then many witness nIn else pure []
  if segwit && witnesses.all (fun w => w.stack.isEmpty) then throw .superfluousWitness
  let lockTime ← u32
  pure ⟨version, inputs, outputs, lockTime, witnesses⟩

end Read

/-- Reads a whole byte string as one transaction. -/
def Tx.parse (b : ByteArray) : Except DecodeError Tx :=
  match (do let t ← Read.tx; Read.finish; pure t : Read Tx) (Cursor.start b) with
  | .ok t _ => .ok t
  | .error e _ => .error e

end BitcoinLight
