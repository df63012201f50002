import BitcoinLight.Hash.Digest

set_option autoImplicit false

/-!
# Transactions

A transaction spends outputs of earlier transactions (its inputs, each naming an outpoint) and
creates new outputs. Segregated-witness data is a list of stacks, one per input when present;
it is either empty or has one stack per input, and a transaction carries witness data exactly
when some stack is non-empty.
-/

namespace BitcoinLight

/-- Output `index` of the transaction with id `txid`. -/
structure OutPoint where
  txid : Hash256
  index : UInt32
  deriving DecidableEq

def OutPoint.null : OutPoint := ⟨Hash256.zero, 0xffffffff⟩

/-- A spend of one earlier output. -/
structure TxIn where
  prevout : OutPoint
  scriptSig : ByteArray
  sequence : UInt32
  deriving DecidableEq

/-- A new output: an amount and the script that locks it. The amount is signed so that the
blanked outputs of legacy single-output signing can hold -1. -/
structure TxOut where
  value : Int64
  scriptPubKey : ByteArray
  deriving DecidableEq

def TxOut.null : TxOut := ⟨-1, ByteArray.empty⟩

/-- The witness stack of one input, bottom element first. -/
structure Witness where
  stack : List ByteArray
  deriving DecidableEq

/-- A transaction. -/
structure Tx where
  version : Int32
  inputs : List TxIn
  outputs : List TxOut
  lockTime : UInt32
  witnesses : List Witness
  deriving DecidableEq

namespace Tx

def hasWitness (tx : Tx) : Bool := tx.witnesses.any (fun w => !w.stack.isEmpty)

def witness? (tx : Tx) (i : Nat) : Option Witness := tx.witnesses[i]?

/-- A coinbase has one input, and it spends the null outpoint. -/
def isCoinbase (tx : Tx) : Bool :=
  match tx.inputs with
  | [i] => i.prevout == OutPoint.null
  | _ => false

end Tx

end BitcoinLight
