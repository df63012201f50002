import BitcoinLight.Chain.Record
import BitcoinLight.Filter.Header
import BitcoinLight.Chain.Basic

set_option autoImplicit false

/-!
# The header and filter store

The store keeps block records keyed by block hash, filter-header records and filters keyed by
the block they belong to, two sync flags, and for each kind of record an index by height.

Every index is a list of `(height, key)` entries in the order they were added. The block index
gains an entry only when that pair is new, the filter indexes on every write, and no entry is
ever removed: a record written again at another height keeps its old entry too, so a look-up
by height returns whatever record its key names now. Filter-header records are also indexed by
their own hash, again in the order written.

Writes that create records first check that none of them is stored; one that is makes the whole
write fail with the store's message and change nothing.
-/

namespace BitcoinLight

/-- The stored data. -/
structure Store where
  headers : List BlockRecord := []
  headerIndex : List (Nat × Hash256) := []
  filterHeaders : List FilterHeaderRecord := []
  filterHeaderHashes : List (Hash256 × Hash256) := []
  filterHeaderIndex : List (Nat × Hash256) := []
  filters : List FilterRecord := []
  filterIndex : List (Nat × Hash256) := []
  syncing : Bool := false
  ibd : Bool := true

namespace Store

def empty : Store := {}

def keysAt (index : List (Nat × Hash256)) (height : Nat) : List Hash256 :=
  (index.filter (·.1 == height)).map (·.2)

def keysBetween (index : List (Nat × Hash256)) (lo hi : Nat) : List Hash256 :=
  if lo > hi then []
  else ((index.filter fun e => lo ≤ e.1 && e.1 ≤ hi).mergeSort (fun a b => a.1 ≤ b.1)).map (·.2)

def maxIndexHeight (index : List (Nat × Hash256)) : Option Nat := (index.map (·.1)).max?

/-! ## Block records -/

def findByHash (s : Store) (h : Hash256) : Option BlockRecord := s.headers.find? (·.hash == h)

def findByHashes (s : Store) (hs : List Hash256) : List BlockRecord := hs.filterMap s.findByHash

def atHeight (s : Store) (height : Nat) : List BlockRecord :=
  (keysAt s.headerIndex height).filterMap s.findByHash

def betweenHeights (s : Store) (lo hi : Nat) : List BlockRecord :=
  (keysBetween s.headerIndex lo hi).filterMap s.findByHash

/-- Writes one record, replacing a record of the same hash and indexing it at its height. -/
def putHeader (s : Store) (r : BlockRecord) : Store :=
  { s with
    headers := r :: s.headers.filter (·.hash != r.hash)
    headerIndex := if s.headerIndex.contains (r.height, r.hash) then s.headerIndex
      else s.headerIndex ++ [(r.height, r.hash)] }

/-- Adds new records; fails, writing nothing, if one of them is stored already. -/
def createAll (s : Store) (rs : List BlockRecord) : Except String Store :=
  match rs.find? (fun r => (s.findByHash r.hash).isSome) with
  | some r => .error s!"header {r.hash.toDisplayHex} already stored"
  | none => .ok (rs.foldl putHeader s)

def upsertAll (s : Store) (rs : List BlockRecord) : Store := rs.foldl putHeader s

def maxHeight (s : Store) : Option Nat := maxIndexHeight s.headerIndex

def headerCount (s : Store) : Nat := s.headers.length

def tipBefore (a b : BlockRecord) : Bool :=
  a.height > b.height || (a.height == b.height && a.hash.compareBytes b.hash != .gt)

def chainTips (s : Store) : List BlockRecord :=
  (s.headers.filter fun r => !s.headers.any (·.prevHash == r.hash)).mergeSort tipBefore

def lowestNoWorkHeight (s : Store) : Option Nat :=
  ((s.headerIndex.filter fun e => (s.findByHash e.2).any (·.work == 0)).map (·.1)).min?

/-- Follows parents from `r` for at most `fuel` records to the first whose time is at most `time`. -/
def closestFrom (s : Store) (time : UInt32) : Nat → Option BlockRecord → Option BlockRecord
  | 0, _ => none
  | _, none => none
  | fuel + 1, some r => if r.timestamp ≤ time then some r else closestFrom s time fuel (s.findByHash r.prevHash)

/-- The stored record of `tip`, or its nearest stored ancestor, whose time is at most `time`.
Each step visits another stored record, so the number of records bounds the walk. -/
def closestBeforeTime (s : Store) (tip : BlockRecord) (time : UInt32) : Option BlockRecord :=
  closestFrom s time (s.headerCount + 1) (s.findByHash tip.hash)

/-! ## Filter headers -/

def filterHeaderOf (s : Store) (block : Hash256) : Option FilterHeaderRecord :=
  s.filterHeaders.find? (·.blockHash == block)

def findFilterHeader (s : Store) (h : Hash256) : Option FilterHeaderRecord :=
  (s.filterHeaderHashes.find? (·.1 == h)).bind fun e => s.filterHeaderOf e.2

def filterHeadersOf (s : Store) (blocks : List Hash256) : List FilterHeaderRecord :=
  blocks.filterMap s.filterHeaderOf

def filterHeadersAtHeight (s : Store) (height : Nat) : List FilterHeaderRecord :=
  (keysAt s.filterHeaderIndex height).filterMap s.filterHeaderOf

def maxFilterHeaderHeight (s : Store) : Option Nat := maxIndexHeight s.filterHeaderIndex

/-- Writes one filter-header record and its index entries. -/
def putFilterHeader (s : Store) (f : FilterHeaderRecord) : Store :=
  { s with
    filterHeaderHashes := s.filterHeaderHashes ++ [(f.hash, f.blockHash)]
    filterHeaderIndex := s.filterHeaderIndex ++ [(f.height, f.blockHash)]
    filterHeaders := f :: s.filterHeaders.filter (·.blockHash != f.blockHash) }

/-- Adds filter-header records; fails, writing nothing, if a block has one already. -/
def createFilterHeaders (s : Store) (fs : List FilterHeaderRecord) : Except String Store :=
  match fs.find? (fun f => (s.filterHeaderOf f.blockHash).isSome) with
  | some f => .error s!"filter header for block {f.blockHash.toDisplayHex} already stored"
  | none => .ok (fs.foldl putFilterHeader s)

/-! ## Filters -/

def filterOf (s : Store) (block : Hash256) : Option FilterRecord := s.filters.find? (·.blockHash == block)

def filtersOf (s : Store) (blocks : List Hash256) : List FilterRecord := blocks.filterMap s.filterOf

def filtersAtHeight (s : Store) (height : Nat) : List FilterRecord :=
  (keysAt s.filterIndex height).filterMap s.filterOf

def filtersBetweenHeights (s : Store) (lo hi : Nat) : List FilterRecord :=
  (keysBetween s.filterIndex lo hi).filterMap s.filterOf

def maxFilterHeight (s : Store) : Option Nat := maxIndexHeight s.filterIndex

/-- Writes one filter and its index entry. -/
def putFilter (s : Store) (f : FilterRecord) : Store :=
  { s with
    filterIndex := s.filterIndex ++ [(f.height, f.blockHash)]
    filters := f :: s.filters.filter (·.blockHash != f.blockHash) }

/-- Adds filters; fails, writing nothing, if a block has one already. -/
def createFilters (s : Store) (fs : List FilterRecord) : Except String Store :=
  match fs.find? (fun f => (s.filterOf f.blockHash).isSome) with
  | some f => .error s!"filter for block {f.blockHash.toDisplayHex} already stored"
  | none => .ok (fs.foldl putFilter s)

def filterHeaderCount (s : Store) : Nat := s.maxFilterHeaderHeight.getD 0

def filterCount (s : Store) : Nat := s.maxFilterHeight.getD 0

/-! ## Flags -/

def setSyncing (s : Store) (v : Bool) : Bool × Store := (s.syncing, { s with syncing := v })

def setIbd (s : Store) (v : Bool) : Bool × Store := (s.ibd, { s with ibd := v })

/-! ## Chains read from the store

Candidate chains are rebuilt from the store by walking back from a tip through the records
indexed in the heights the walk can reach. A depth is a machine-word count, and the number of
heights below the tip that it covers is taken modulo 2^32, as a 32-bit height difference.
-/

def lookupIn (rs : List BlockRecord) (h : Hash256) : Option BlockRecord := rs.reverse.find? (·.hash == h)

def depthFloor (height depth : Nat) : Nat := height - (depth - 1) % 2 ^ 32

def chainTo (s : Store) (tip : BlockRecord) (depth : Nat) : Chain :=
  Chain.walkBack tip (lookupIn (s.betweenHeights (depthFloor tip.height depth) tip.height)) depth

def blockchains (s : Store) (depth : Nat) : List Chain := s.chainTips.map (s.chainTo · depth)

/-- The chains of the records indexed from `lo` to `hi`, one for each of them that no other
among them builds on. -/
def blockchainsBetweenHeights (s : Store) (lo hi : Nat) : List Chain :=
  let rs := s.betweenHeights lo hi
  (rs.filter fun r => !rs.any (·.prevHash == r.hash)).map fun tip =>
    Chain.walkBack tip (lookupIn rs) (hi - lo + 1)

def blockchainFrom (s : Store) (h : Hash256) (depth : Nat) : Option Chain :=
  (s.findByHash h).map (s.chainTo · depth)

end Store

end BitcoinLight
