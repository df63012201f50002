import BitcoinLight.Node.Query

set_option autoImplicit false

/-!
# Adding block headers

A batch of headers is reduced to the new ones: each hash once, and none that a candidate chain
or the store already holds. A new header whose parent is neither in the batch nor in a candidate
chain brings the stored chain ending at that parent in as one more candidate. The new headers
are then connected to every candidate; those that connect anywhere are stored, lowest first, and
reported to the callbacks, and the candidates are pruned to the chains that no other candidate
extends, one per tip, each cut to the cache depth.
-/

namespace BitcoinLight

namespace View

def distinctByHash (hs : List Header) : List (Hash256 × Header) :=
  firstOfEachKey (·.1) (hs.map fun h => (h.hash, h))

/-- The headers of a batch that are new: each hash once, and none that a candidate chain or the
store holds. -/
def freshHeaders (s : Store) (chains : List Chain) (headers : List Header) : List Header :=
  let unseen := (distinctByHash headers).filter fun p => !chains.any (·.contains p.1)
  let stored := (s.findByHashes (unseen.map (·.1))).map (·.hash)
  (unseen.filter fun p => !stored.contains p.1).map (·.2)

/-- Adds, for each header in order, the stored chain ending at its parent, unless the parent is
in the batch, in a candidate chain, or was looked up already. -/
def withForkParents (s : Store) (depth : Nat) (batch : List Hash256) (chains : List Chain)
    (hs : List Header) : List Chain :=
  (hs.foldl (fun (acc : List Chain × List Hash256) h =>
    let parent := h.prevHash
    if batch.contains parent || acc.1.any (·.contains parent) || acc.2.contains parent then acc
    else
      let loaded := parent :: acc.2
      match s.blockchainFrom parent depth with
      | some c => (acc.1 ++ [c], loaded)
      | none => (acc.1, loaded)) (chains, [])).1

def connectedRecords (us : List ChainUpdate) : List BlockRecord :=
  firstOfEachKey (·.hash) (us.flatMap (·.connected))

/-- Why no header connected: the first rejected header and its reason. -/
def rejection (us : List ChainUpdate) : String :=
  match us.findSome? (·.failure) with
  | some (h, t) => s!"{h.hash.toDisplayHex}: {t.reason}"
  | none => "no candidate chain"

/-- One chain's turn in `pruneChains`: kept, cut to `depth` records, if it has a tip that no chain
with another tip contains and that no chain kept so far ends at. -/
def keepChain (depth : Nat) (chains : List Chain) (acc : List Hash256 × List Chain)
    (e : Chain × Nat) : List Hash256 × List Chain :=
  let tips := chains.map (·.tip?.map (·.hash))
  match e.1.tip? with
  | none => acc
  | some t =>
    let extended := chains.zipIdx.any fun (o, j) =>
      j != e.2 && tips[j]? != some (some t.hash) && o.contains t.hash
    if extended || acc.1.contains t.hash then acc
    else (acc.1 ++ [t.hash], acc.2 ++ [e.1.trim depth])

/-- The chains to keep: each chain with a tip that no other chain with another tip contains,
the first of each tip, cut to `depth` records. -/
def pruneChains (depth : Nat) (chains : List Chain) : List Chain :=
  (chains.zipIdx.foldl (keepChain depth chains) ([], [])).2

end View

namespace NodeStep

/-- Connects a batch of headers. Stores those that connect to some candidate chain and gives a
new view; fails, writing nothing, if all are known or none connects. -/
def processHeaders (v : View) (headers : List Header) : NodeStep View := do
  if headers.isEmpty then return v
  let chains ← currentChains v
  let s ← store
  let fresh := View.freshHeaders s chains headers
  if fresh.isEmpty then
    throw (.duplicateHeaders s!"all {headers.length} headers already known")
  let chains := View.withForkParents s v.config.cacheDepth (fresh.map (·.hash)) chains fresh
  let updates := connectHeaders fresh chains v.params
  let connected := View.connectedRecords updates
  if connected.isEmpty then throw (.invalidBlockHeader (View.rejection updates))
  let connected := connected.mergeSort fun a b => a.height ≤ b.height
  write (s.createAll connected)
  let next ← commit v (View.pruneChains v.config.cacheDepth (updates.map (·.chain)))
  dispatch v (.headersConnected connected)
  return next

end NodeStep

end BitcoinLight
