import BitcoinLight.Node.Headers

set_option autoImplicit false

/-!
# Sync flags and syncing from a header source

The syncing flag tells the callbacks when it changes; the initial-download flag is kept
quietly. Syncing from a source walks back from the source's best block to the first header
whose parent the node knows, then adds the missing headers oldest first, at most two thousand
at a time, with the syncing flag set while it runs and cleared when it ends, also on failure.
-/

namespace BitcoinLight

/-- A peer that serves headers: its best block, and the headers it can look up by hash, each
kept with its hash so that a look-up hashes nothing. -/
structure HeaderSource where
  best : Hash256
  entries : List (Hash256 × Header)
  entries_hash : ∀ e ∈ entries, e.1 = e.2.hash

namespace HeaderSource

def ofHeaders (best : Hash256) (headers : List Header) : HeaderSource :=
  ⟨best, headers.map fun h => (h.hash, h), by simp⟩

def headers (src : HeaderSource) : List Header := src.entries.map (·.2)

def lookup (src : HeaderSource) (h : Hash256) : Option Header :=
  (src.entries.reverse.find? (·.1 == h)).map (·.2)

end HeaderSource

def maxHeadersPerMessage : Nat := 2000

/-- Splits a list into runs of `n` elements, the last possibly shorter. -/
def chunksOf {α : Type} (n : Nat) (xs : List α) : List (List α) :=
  if _h : n = 0 ∨ xs = [] then [xs].filter (!·.isEmpty)
  else xs.take n :: chunksOf n (xs.drop n)
termination_by xs.length
decreasing_by
  simp only [not_or] at _h
  have : xs.length ≠ 0 := fun e => _h.2 (List.eq_nil_of_length_eq_zero e)
  simp only [List.length_drop]
  omega

namespace NodeStep

/-- Sets the syncing flag, telling the callbacks if it changed. -/
def setSyncing (v : View) (value : Bool) : NodeStep View := do
  let (previous, s) := (← store).setSyncing value
  setStore s
  if previous != value then dispatch v (.syncFlagChanged value)
  return v

def setIbd (v : View) (value : Bool) : NodeStep View := do
  setStore ((← store).setIbd value).2
  return v

/-- The headers from the source's best block back to the first whose parent the view knows,
oldest first; at most `fuel` headers are fetched. -/
def missingFrom (s : Store) (v : View) (src : HeaderSource) :
    Nat → Hash256 → List Header → Except Error (List Header)
  | 0, _, _ => .error (.chainState "source chain does not connect to any stored header")
  | fuel + 1, cursor, acc =>
    match src.lookup cursor with
    | none => .error (.unknownBlockHash s!"source has no header {cursor.toDisplayHex}")
    | some h =>
      if (v.header? s h.prevHash).isSome then .ok (h :: acc)
      else if h.prevHash = Hash256.zero then
        .error (.chainState "source chain does not connect to any stored header")
      else missingFrom s v src fuel h.prevHash (h :: acc)

def processRuns : View → List (List Header) → NodeStep View
  | v, [] => pure v
  | v, run :: rest => do processRuns (← processHeaders v run) rest

/-- Fetches and adds the headers the source has beyond what the view knows. -/
def syncHeadersFrom (v : View) (src : HeaderSource) : NodeStep View := do
  let s ← store
  if (v.header? s src.best).isSome then return v
  let missing ← ofExcept (missingFrom s v src (src.entries.length + 1) src.best [])
  let v ← setSyncing v true
  match ← attempt (processRuns v (chunksOf maxHeadersPerMessage missing)) with
  | .ok next => setSyncing next false
  | .error e =>
    let _ ← setSyncing v false
    throw e

end NodeStep

end BitcoinLight
