import BitcoinLight.Script.Token

set_option autoImplicit false

/-!
# Absolute lock times of spending scripts

A script that starts `<n> CHECKLOCKTIMEVERIFY DROP` requires the spending transaction's lock
time to reach `n`. Values below 500 000 000 are block heights, the others are times; a
transaction can meet requirements of one kind only, and then its lock time is their maximum.
-/

namespace BitcoinLight.Script

def lockTimeThreshold : Nat := 500000000

/-- The lock time a script requires, if it starts with a lock-time check. -/
def cltvRequirement (s : ByteArray) : Except ScriptError (Option Nat) := do
  match ← parse s with
  | lock :: .op 0xb1 :: .op 0x75 :: _ =>
    let value : Int ← match lock with
      | .op 0 => pure 0
      | .op c => if 0x51 ≤ c ∧ c ≤ 0x60 then pure (c.toNat - 0x50 : Nat) else throw .lockNotNumber
      | .push _ d => do
        let v ← decodeNumber d 5
        pure v.toInt
    if 0 ≤ value ∧ value < 2 ^ 32 then pure (some value.toNat) else throw (.lockTimeRange value)
  | _ => pure none

def sameLockKind (a b : Nat) : Bool := (a < lockTimeThreshold) == (b < lockTimeThreshold)

/-- Folds the requirements of a list of scripts, from `acc` on. -/
def combineLockTimes (acc : Option Nat) : List ByteArray → Except Error (Option Nat)
  | [] => .ok acc
  | s :: rest =>
    match cltvRequirement s with
    | .error e => .error (.invalidScript e)
    | .ok none => combineLockTimes acc rest
    | .ok (some r) =>
      match acc with
      | none => combineLockTimes (some r) rest
      | some c =>
        if sameLockKind c r then combineLockTimes (some (max c r)) rest
        else .error (.incompatibleLockTimes c r)

def calcLockTime (scripts : List ByteArray) : Except Error Nat :=
  (combineLockTimes none scripts).map (·.getD 0)

end BitcoinLight.Script
