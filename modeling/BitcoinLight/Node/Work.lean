import BitcoinLight.Node.State

set_option autoImplicit false

/-!
# Recalculating chain work

Chain work is recalculated upward from the lowest height indexed with a record of no work, in
batches of heights. Each record's work is its parent's work plus its own (its own alone at
height zero), taking the parent from the records just recalculated at the height below; a record
whose parent is not among them keeps its work. Each batch is written before the next is read.
The cancel flag is read again before each batch; once it is seen set, the walk stops with the
batches written so far kept.
-/

namespace BitcoinLight

namespace Store

/-- The records of one batch with their work recalculated from `parents` (hash, height and work
of the records one height down), and the parents for the next. -/
def rework (parents : List (Hash256 × Nat × Nat)) (rs : List BlockRecord) :
    List BlockRecord × List (Hash256 × Nat × Nat) :=
  rs.foldl (fun (acc : List BlockRecord × List (Hash256 × Nat × Nat)) r =>
    let proof := Work.blockProof r.bits
    let work? := if r.height = 0 then some proof
      else (acc.2.find? (·.1 == r.prevHash)).map fun p => Work.addWork p.2.2 proof
    match work? with
    | none => acc
    | some w => (acc.1 ++ [r.withWork w], (r.hash, r.height, w) :: acc.2.filter (·.1 != r.hash)))
    ([], parents)

/-- Recalculates the batches from `lo` to `top`, `size` heights each, for at most `fuel`
batches. `cancelled lo` is the flag as read before the batch from `lo`; a cancelled walk gives
the store as its last batch left it. -/
def reworkFrom (size top : Nat) (cancelled : Nat → Bool) :
    Nat → Nat → List (Hash256 × Nat × Nat) → Store → Except Store Store
  | 0, _, _, s => .ok s
  | fuel + 1, lo, parents, s =>
    if lo > top then .ok s
    else if cancelled lo then .error s
    else
      let hi := min (min (lo + (size - 1)) (2 ^ 32 - 1)) top
      let (updated, parents) := rework parents (s.betweenHeights lo hi)
      let s := s.upsertAll updated
      if hi = 2 ^ 32 - 1 then .ok s
      else reworkFrom size top cancelled fuel (hi + 1) (parents.filter (·.2.1 == hi)) s

/-- Sets every record indexed from `height` up to the greatest height to no chain work, so that
it is recalculated; gives the number of records written. -/
def clearWorkFrom (s : Store) (height : Nat) : Nat × Store :=
  let rs := s.betweenHeights height (s.maxHeight.getD 0)
  (rs.length, s.upsertAll (rs.map (·.withWork 0)))

end Store

namespace NodeStep

/-- Recalculates chain work from the lowest record without it, and gives a new view with the
chains reloaded. `cancelled` is the cancel flag as read before each batch: a cancelled run keeps
the batches it wrote and fails. -/
def recalculateChainWork (v : View) (cancelled : Nat → Bool) : NodeStep View := do
  let s ← store
  match s.lowestNoWorkHeight with
  | none => return v
  | some lowest =>
    let top := s.maxHeight.getD lowest
    let parents := if lowest = 0 then []
      else (s.atHeight (lowest - 1)).map fun r => (r.hash, r.height, r.work)
    match Store.reworkFrom v.config.chainWorkBatchSize top cancelled (top - lowest + 1) lowest
        parents s with
    | .error written =>
      setStore written
      throw .cancelled
    | .ok s' =>
      setStore s'
      commit v ((← store).blockchains v.config.cacheDepth)

end NodeStep

end BitcoinLight
