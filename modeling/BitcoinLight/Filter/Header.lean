import BitcoinLight.Hash.Digest

set_option autoImplicit false

/-!
# Compact filters and their header chain

Each block has a compact filter; its hash is the double SHA-256 of the filter's bytes. Filter
headers chain the filters: a header is the double SHA-256 of the filter hash and the previous
header, and the genesis block's previous header is the zero hash. Records hold what the store
keeps for a block.
-/

namespace BitcoinLight

/-- The kinds of compact filter; only the basic filter, code 0, is defined. -/
inductive FilterType where
  | basic
  deriving DecidableEq

namespace FilterType

def code : FilterType → Nat
  | .basic => 0

def ofCode? (c : Nat) : Option FilterType := if c = 0 then some .basic else none

end FilterType

def filterHash (b : ByteArray) : Hash256 := sha256d b

/-- One link of the filter-header chain. -/
structure FilterHeader where
  filterHash : Hash256
  prevHeader : Hash256
  deriving DecidableEq

namespace FilterHeader

def hash (f : FilterHeader) : Hash256 := sha256d (f.filterHash.bytes ++ f.prevHeader.bytes)

def next (f : FilterHeader) (nextFilterHash : Hash256) : FilterHeader := ⟨nextFilterHash, f.hash⟩

def genesis (fh : Hash256) : FilterHeader := ⟨fh, Hash256.zero⟩

end FilterHeader

/-- Links for a run of filter hashes, chained from `prev`, oldest first. -/
def chainFilterHeaders (prev : Hash256) : List Hash256 → List FilterHeader
  | [] => []
  | h :: rest =>
    let link : FilterHeader := ⟨h, prev⟩
    link :: chainFilterHeaders link.hash rest

/-- A stored filter header of a block. -/
structure FilterHeaderRecord where
  hash : Hash256
  filterHash : Hash256
  prevHeader : Hash256
  blockHash : Hash256
  height : Nat
  deriving DecidableEq

namespace FilterHeaderRecord

def ofLink (f : FilterHeader) (blockHash : Hash256) (height : Nat) : FilterHeaderRecord :=
  ⟨f.hash, f.filterHash, f.prevHeader, blockHash, height⟩

def link (r : FilterHeaderRecord) : FilterHeader := ⟨r.filterHash, r.prevHeader⟩

def consistent (r : FilterHeaderRecord) : Bool := r.link.hash == r.hash

def describe (r : FilterHeaderRecord) : String :=
  s!"filter header {r.hash.toDisplayHex} at height {r.height} (block {r.blockHash.toDisplayHex})"

end FilterHeaderRecord

/-- A stored filter of a block; only the basic filter type, code 0, exists. -/
structure FilterRecord where
  hash : Hash256
  bytes : ByteArray
  height : Nat
  blockHash : Hash256
  deriving DecidableEq

def FilterRecord.ofBytes (bytes : ByteArray) (blockHash : Hash256) (height : Nat) : FilterRecord :=
  ⟨filterHash bytes, bytes, height, blockHash⟩

end BitcoinLight
