import BitcoinLight.Node.Query

set_option autoImplicit false

/-!
# Adding filter headers, filters and checkpoints

A run of filter headers belongs to the blocks that end at a stop block, oldest first, one block
each. Filter headers already stored with the same hash are skipped, one stored with another hash
is a conflict; the rest must each link to the filter header of the height below (the zero hash
at genesis) and match any checkpoint of their block. A filter must belong to a block with a
filter header, and hash to the filter hash that header commits to. Checkpoints name the filter
header hash expected every thousand blocks below a stop block.
-/

namespace BitcoinLight

/-- A filter as received: the block it belongs to and its bytes. -/
structure FilterMessage where
  blockHash : Hash256
  bytes : ByteArray
  filterType : FilterType := .basic

def checkpointInterval : Nat := 1000

namespace View

/-- Checks one record's link, against the hashes and heights of the records before it in the
run (newest first) and then the store, and adds its own. -/
def filterLinkStep (s : Store) (heights : List (Hash256 × Nat)) (f : FilterHeaderRecord) :
    Except Error (List (Hash256 × Nat)) :=
  if f.height = 0 then
    if f.prevHeader ≠ Hash256.zero then
      .error (.invalidFilterHeader s!"{f.describe} must link to the zero hash")
    else .ok ((f.hash, f.height) :: heights)
  else
    let prev := match heights.find? (·.1 == f.prevHeader) with
      | some (_, h) => some h
      | none => (s.findFilterHeader f.prevHeader).map (·.height)
    match prev with
    | some h =>
      if h + 1 = f.height then .ok ((f.hash, f.height) :: heights)
      else .error (.invalidFilterHeader s!"{f.describe} links to a filter header at height {h}")
    | none =>
      .error (.invalidFilterHeader s!"{f.describe} links to unknown filter header {f.prevHeader.toDisplayHex}")

/-- Checks that each record links to the filter header one height below, found earlier in the
run or in the store; the genesis record links to the zero hash. -/
def verifyFilterLinks (s : Store) (batch : List FilterHeaderRecord) : Except Error Unit :=
  (batch.foldlM (filterLinkStep s) []).map fun _ => ()

/-- Checks each record against the checkpoint of its block, if there is one. -/
def verifyCheckpoints (v : View) (batch : List FilterHeaderRecord) : Except Error Unit :=
  batch.forM fun f =>
    match v.checkpointOf f.blockHash with
    | some e => if e ≠ f.hash then
        .error (.invalidFilterHeader s!"{f.describe} does not match checkpoint {e.toDisplayHex}")
      else .ok ()
    | none => .ok ()

def filterHeaderBatch (links : List FilterHeader) (blocks : Chain) : List FilterHeaderRecord :=
  (links.zip blocks.records).map fun (f, b) => FilterHeaderRecord.ofLink f b.hash b.height

/-- Adds a record to the new ones unless its block has one stored: the same one is skipped,
another is a conflict. -/
def addNewFilterHeader (s : Store) (acc : List FilterHeaderRecord) (f : FilterHeaderRecord) :
    Except Error (List FilterHeaderRecord) :=
  match s.filterHeaderOf f.blockHash with
  | some e => if e.hash = f.hash then .ok acc
    else .error (.invalidFilterHeader s!"{f.describe} conflicts with stored {e.describe}")
  | none => .ok (acc ++ [f])

/-- The records of a run of filter headers that are not stored yet; a block whose stored record
has another hash is a conflict. -/
def newFilterHeaders (s : Store) (batch : List FilterHeaderRecord) :
    Except Error (List FilterHeaderRecord) :=
  batch.foldlM (addNewFilterHeader s) []

/-- The first message whose block appeared in an earlier one. -/
def repeatedBlock (ms : List FilterMessage) : Option Hash256 :=
  let rec go (seen : List Hash256) : List FilterMessage → Option Hash256
    | [] => none
    | m :: rest => if seen.contains m.blockHash then some m.blockHash else go (m.blockHash :: seen) rest
  go [] ms

/-- The filter of a message, checked against the filter header of its block. -/
def filterOfMessage (s : Store) (m : FilterMessage) : Except Error FilterRecord :=
  match s.filterHeaderOf m.blockHash with
  | none => .error (.unknownBlockHash s!"no filter header for block {m.blockHash.toDisplayHex}")
  | some fh =>
    let f := FilterRecord.ofBytes m.bytes m.blockHash fh.height
    if f.hash ≠ fh.filterHash then
      .error (.unknownFilterHash s!"filter for block {m.blockHash.toDisplayHex} hashes to {f.hash.toDisplayHex}, its filter header commits to {fh.filterHash.toDisplayHex}")
    else .ok f

/-- Records checkpoint `p.1`, the `p.2`-th after genesis, for the ancestor of `stop` (the block
`blockHash`) at its height in `acc`, refusing one that a stored filter header contradicts. -/
def addCheckpoint (s : Store) (v : View) (stop : BlockRecord) (blockHash : Hash256)
    (acc : View) (p : Hash256 × Nat) : Except Error View :=
  let height := (p.2 + 1) * checkpointInterval
  match v.ancestorAt s stop height with
  | none => .error (.unknownBlockHash s!"no ancestor of {blockHash.toDisplayHex} at checkpoint height {height}")
  | some block =>
    match s.filterHeaderOf block.hash with
    | some e => if e.hash ≠ p.1 then
        .error (.invalidFilterHeader s!"{e.describe} contradicts checkpoint {p.1.toDisplayHex}")
      else .ok (acc.withCheckpoint block.hash p.1)
    | none => .ok (acc.withCheckpoint block.hash p.1)

end View

namespace NodeStep

/-- Stores the filter headers of the blocks ending at `stopHash`, oldest first. -/
def processFilterHeaders (v : View) (links : List FilterHeader) (stopHash : Hash256) : NodeStep View := do
  if links.isEmpty then return v
  let s ← store
  let stop ← ofExcept (v.requireHeader s stopHash)
  let blocks := v.chainEndingAt s stop links.length
  if blocks.length ≠ links.length then
    throw (.unknownBlockHash s!"{links.length} filter headers but only {blocks.length} block headers end at {stopHash.toDisplayHex}")
  let fresh ← ofExcept (View.newFilterHeaders s (View.filterHeaderBatch links blocks))
  if fresh.isEmpty then return v
  ofExcept (View.verifyFilterLinks s fresh)
  ofExcept (v.verifyCheckpoints fresh)
  write (s.createFilterHeaders fresh)
  dispatch v (.filterHeadersConnected fresh)
  return v

/-- Stores the filters that are new, lowest first. -/
def processFilters (v : View) (ms : List FilterMessage) : NodeStep View := do
  if ms.isEmpty then return v
  if let some b := View.repeatedBlock ms then
    throw (.duplicateFilters s!"block {b.toDisplayHex} appears more than once")
  let s ← store
  let stored := (s.filtersOf (ms.map (·.blockHash))).map (·.blockHash)
  let pending := ms.filter fun m => !stored.contains m.blockHash
  if pending.isEmpty then return v
  let filters ← ofExcept (pending.mapM (View.filterOfMessage s))
  let filters := filters.mergeSort fun a b => a.height ≤ b.height
  write (s.createFilters filters)
  dispatch v (.filtersConnected filters)
  return v

/-- Records checkpoints for the ancestors of `blockHash` at every thousandth height, refusing
one that a stored filter header contradicts. -/
def processCheckpoints (v : View) (cps : List Hash256) (blockHash : Hash256) : NodeStep View := do
  let s ← store
  let stop ← ofExcept (v.requireHeader s blockHash)
  ofExcept (cps.zipIdx.foldlM (View.addCheckpoint s v stop blockHash) v)

end NodeStep

end BitcoinLight
