import BitcoinLight.Node.State
import BitcoinLight.Chain.Connect

set_option autoImplicit false

/-!
# Reading the chain state

What a view answers from its candidate chains and the store, without writing: the best header,
headers by hash and height, the chain that ends at a header, ancestors and common ancestors,
the median time past, confirmations, filter headers and filters, and the sync status. Where the
candidate chains hold the answer they give it; otherwise the store does.
-/

namespace BitcoinLight

/-- Where a sync request stands: the first height to fetch and the block it stops at. -/
structure SyncMarker where
  startHeight : Nat
  stopHash : Hash256
  deriving DecidableEq

/-- A block named by its height, its hash, or a time. -/
inductive BlockStamp where
  | height (h : Nat)
  | hash (h : Hash256)
  | time (t : UInt32)

/-- How far the node is with the header chain. -/
inductive SyncStatus where
  | noHeaders | syncing | synced | reorgDetected
  deriving DecidableEq

namespace View

variable (s : Store) (v : View)

/-- The best tip of the candidate chains, or else of the store. -/
def bestHeader : Except Error BlockRecord :=
  match bestTip v.tips with
  | some r => .ok r
  | none =>
    match bestTip s.chainTips with
    | some r => .ok r
    | none => .error (.chainState "no block headers stored")

/-- The record with this hash: from the first candidate chain holding it, or from the store. -/
def header? (h : Hash256) : Option BlockRecord :=
  match v.chains.findSome? (·.find? h) with
  | some r => some r
  | none => s.findByHash h

/-- The record with this hash, which must be known. -/
def requireHeader (h : Hash256) : Except Error BlockRecord :=
  match v.header? s h with
  | some r => .ok r
  | none => .error (.unknownBlockHash h.toDisplayHex)

/-- The chain of at most `len` records ending at `stop`: cut from a candidate chain that reaches
far enough down, or else walked back through the store. -/
def chainEndingAt (stop : BlockRecord) (len : Nat) : Chain :=
  if len = 0 then ⟨[]⟩
  else
    let floor := Store.depthFloor stop.height len
    let fromMemory := v.chains.findSome? fun c =>
      match c.prefixThrough stop.hash with
      | some p => if p.first?.any (·.height ≤ floor) then some (p.trim len) else none
      | none => none
    match fromMemory with
    | some c => c
    | none => s.chainTo stop len

def ancestorAt (tip : BlockRecord) (height : Nat) : Option BlockRecord :=
  if height > tip.height then none
  else ((v.chainEndingAt s tip (tip.height - height + 1)).first?).filter (·.height == height)

/-- Steps both sides to their parents until they meet, for at most `fuel` steps. -/
def meetFrom : Nat → Option BlockRecord → Option BlockRecord → Option Nat
  | 0, _, _ => none
  | fuel + 1, some l, some r =>
    if l.hash = r.hash then some l.height
    else if l.height = 0 then none
    else meetFrom fuel (v.header? s l.prevHash) (v.header? s r.prevHash)
  | _, _, _ => none

/-- The height of the highest common ancestor of `a` and `b`. The walk visits each known record
at most once on each side, so the number of known records bounds it. -/
def commonAncestorHeight (a b : BlockRecord) : Except Error Nat :=
  let h := min a.height b.height
  let fuel := s.headerCount + (v.chains.map (·.length)).sum + 1
  match meetFrom s v fuel (v.ancestorAt s a h) (v.ancestorAt s b h) with
  | some height => .ok height
  | none => .error (.chainState s!"no common ancestor for {a.hash.toDisplayHex} and {b.hash.toDisplayHex}")

/-- The median time past of the best chain. -/
def medianTimePast : Except Error UInt32 := do
  let tip ← v.bestHeader s
  match (v.chainEndingAt s tip Chain.medianTimeSpan).medianTimePast with
  | some t => pure t
  | none => throw (.chainState "no headers for median time past")

/-- How many records, counting the block itself, the highest candidate tip that has this block
below it has from the block up. -/
def confirmations (h : Hash256) : Option Nat :=
  (v.header? s h).bind fun r =>
    (v.tips.filter fun tip =>
      r.height ≤ tip.height && (v.ancestorAt s tip r.height).any (·.hash == h)).foldl
      (fun acc tip => some (max (acc.getD 0) (tip.height - r.height + 1))) none

/-- The filter header at the greatest stored height; of several, the one on the best chain,
else the first stored. -/
def bestFilterHeader : Except Error (Option FilterHeaderRecord) :=
  match s.maxFilterHeaderHeight with
  | none => .ok none
  | some height =>
    let candidates := s.filterHeadersAtHeight height
    if candidates.length > 1 then do
      let best ← v.bestHeader s
      let onBest := (v.ancestorAt s best height).bind fun block =>
        candidates.find? (·.blockHash == block.hash)
      pure (onBest.orElse fun _ => candidates.head?)
    else .ok candidates.head?

def filtersBetween (lo hi : Nat) : Except Error (List FilterRecord) :=
  if lo > hi then .error (.invalidArgument s!"start height {lo} above end height {hi}")
  else .ok (s.filtersBetweenHeights lo hi)

/-- The height a stamp names: the height itself, the height of a known block, or the height of
the latest block of the best chain whose time is not after the stamp. -/
def heightOf : BlockStamp → Except Error Nat
  | .height h => .ok h
  | .hash h => (·.height) <$> v.requireHeader s h
  | .time t => do
    let tip ← v.bestHeader s
    match s.closestBeforeTime tip t with
    | some r => pure r.height
    | none => throw (.invalidArgument s!"no header at or before time {t}")

/-- The sync status: no headers beyond genesis; two candidate tips tied for most work; or
whether the syncing flag is set. -/
def syncStatus : SyncStatus :=
  if s.headerCount ≤ 1 then .noHeaders
  else if (mostWorkTips v.tips).length > 1 then .reorgDetected
  else if s.syncing then .syncing
  else .synced

/-- The next batch from `start` toward `stop`: up to `size` heights, ending at the ancestor of
`stop` at the last of them. -/
def batchMarker (stop : BlockRecord) (start size : Nat) : Except Error (Option SyncMarker) :=
  if size = 0 then .error (.invalidArgument "batch size must be positive")
  else if start > stop.height then .ok none
  else
    let stopHeight := min (min (start + (size - 1)) (2 ^ 32 - 1)) stop.height
    match v.ancestorAt s stop stopHeight with
    | some b => .ok (some ⟨start, b.hash⟩)
    | none => .error (.unknownBlockHash s!"no header at height {stopHeight} below {stop.hash.toDisplayHex}")

/-- The next batch of block headers after `prevStop` up to `stop`; from genesis when
`prevStop` is the zero hash, else from above the common ancestor of the two. -/
def nextHeaderBatch (prevStop stopHash : Hash256) (size : Nat) : Except Error (Option SyncMarker) :=
  if prevStop = stopHash then .ok none
  else do
    let stop ← v.requireHeader s stopHash
    let start ← if prevStop = Hash256.zero then pure 0 else do
      let prev ← v.requireHeader s prevStop
      pure ((← v.commonAncestorHeight s prev stop) + 1)
    v.batchMarker s stop start size

/-- The next batch of filter headers up to `stop`, from `start` or above the highest stored. -/
def nextFilterHeaderBatch (stopHash : Hash256) (size : Nat) (start : Option Nat) :
    Except Error (Option SyncMarker) := do
  let stop ← v.requireHeader s stopHash
  let start := start.getD ((s.maxFilterHeaderHeight.map (· + 1)).getD 0)
  v.batchMarker s stop start size

/-- The next batch of filters up to `stop`, but not above the highest filter header, from
`start` or above the highest stored filter. -/
def nextFilterBatch (stopHash : Hash256) (size : Nat) (start : Option Nat) :
    Except Error (Option SyncMarker) :=
  match s.maxFilterHeaderHeight with
  | none => .ok none
  | some top => do
    let stop ← v.requireHeader s stopHash
    let stop? := if stop.height > top then v.ancestorAt s stop top else some stop
    match stop? with
    | none => pure none
    | some stop =>
      let start := start.getD ((s.maxFilterHeight.map (· + 1)).getD 0)
      v.batchMarker s stop start size

end View

end BitcoinLight
