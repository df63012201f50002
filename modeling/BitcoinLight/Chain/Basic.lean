import BitcoinLight.Chain.Record

set_option autoImplicit false

/-!
# Chains of block records

A chain is a run of block records, oldest first, in which each record is one higher than the one
before and names it as its parent. `Chain.ofRecords` checks that; the other ways to build a chain
keep it. A chain in memory is a window: its first record need not be the genesis block, and
`findAtHeight` indexes from the first record's height.
-/

namespace BitcoinLight

def Follows (p c : BlockRecord) : Prop := c.height = p.height + 1 ∧ c.prevHash = p.hash

instance (p c : BlockRecord) : Decidable (Follows p c) := by
  unfold Follows; infer_instance

/-- Every record of the list follows the one before it. -/
def Linked : List BlockRecord → Prop
  | [] => True
  | [_] => True
  | p :: c :: rest => Follows p c ∧ Linked (c :: rest)

def keepFirstKey {α : Type} (key : α → Hash256) (acc : List α) (x : α) : List α :=
  if acc.any (fun y => key y == key x) then acc else acc ++ [x]

def firstOfEachKey {α : Type} (key : α → Hash256) (xs : List α) : List α :=
  xs.foldl (keepFirstKey key) []

/-- A run of block records, oldest first. -/
structure Chain where
  records : List BlockRecord
  deriving DecidableEq

/-- The first pair of neighbours that does not link, as the error that reports it. -/
def linkError? : List BlockRecord → Option Error
  | p :: c :: rest =>
    if Follows p c then linkError? (c :: rest)
    else some (.chainState s!"header {c.hash.toDisplayHex} at height {c.height} does not link to {p.hash.toDisplayHex}")
  | _ => none

namespace Chain

/-- The chain of these records, if each one follows the one before. -/
def ofRecords (rs : List BlockRecord) : Except Error Chain :=
  match linkError? rs with
  | some e => .error e
  | none => .ok ⟨rs⟩

def single (r : BlockRecord) : Chain := ⟨[r]⟩

/-- Walks from `oldest` to its parents through `lookup`, prepending each to `acc`, for at most
`fuel` steps; it stops at height zero, at an unknown parent, or at a parent whose height is not
one below. -/
def walkFrom (lookup : Hash256 → Option BlockRecord) :
    Nat → BlockRecord → List BlockRecord → List BlockRecord
  | 0, _, acc => acc
  | fuel + 1, oldest, acc =>
    if oldest.height = 0 then acc
    else match lookup oldest.prevHash with
      | some p => if p.height + 1 = oldest.height then walkFrom lookup fuel p (p :: acc) else acc
      | none => acc

/-- The chain of at most `maxLen` records ending at `tip` (at least the tip itself), found by
following parent hashes through `lookup`. -/
def walkBack (tip : BlockRecord) (lookup : Hash256 → Option BlockRecord) (maxLen : Nat) : Chain :=
  ⟨walkFrom lookup (maxLen - 1) tip [tip]⟩

def length (c : Chain) : Nat := c.records.length

def tip? (c : Chain) : Option BlockRecord := c.records.getLast?

def first? (c : Chain) : Option BlockRecord := c.records.head?

def height? (c : Chain) : Option Nat := c.tip?.map (·.height)

/-- The record at `height`, counted from the first record's height. -/
def findAtHeight (c : Chain) (height : Nat) : Option BlockRecord :=
  match c.first? with
  | some f => if f.height ≤ height then c.records[height - f.height]? else none
  | none => none

/-- `findAtHeight` over `records`, an array copy of the chain's records made once by the caller,
so that each look-up takes constant time when a walk looks up every height below a tip. -/
def atHeightIn (c : Chain) (records : Array BlockRecord) (height : Nat) : Option BlockRecord :=
  match c.first? with
  | some f => if f.height ≤ height then records[height - f.height]? else none
  | none => none

theorem atHeightIn_toArray (c : Chain) (height : Nat) :
    c.atHeightIn c.records.toArray height = c.findAtHeight height := by
  simp only [atHeightIn, findAtHeight, List.getElem?_toArray]

def position? (c : Chain) (hash : Hash256) : Option Nat :=
  (c.records.zipIdx.filter (fun p => p.1.hash == hash)).getLast?.map (·.2)

def find? (c : Chain) (hash : Hash256) : Option BlockRecord :=
  (c.records.filter (·.hash == hash)).getLast?

def contains (c : Chain) (hash : Hash256) : Bool := c.records.any (·.hash == hash)

def push (c : Chain) (r : BlockRecord) : Chain := ⟨c.records ++ [r]⟩

def trim (c : Chain) (depth : Nat) : Chain := ⟨c.records.drop (c.length - depth)⟩

def prefixThrough (c : Chain) (hash : Hash256) : Option Chain :=
  (c.position? hash).map fun i => ⟨c.records.take (i + 1)⟩

def medianTimeSpan : Nat := 11

/-- The median of the newest eleven timestamps (the upper one of an even count). -/
def medianTimePast (c : Chain) : Option UInt32 :=
  let times := ((c.records.drop (c.length - medianTimeSpan)).map (·.timestamp)).mergeSort
    (fun a b => decide (a ≤ b))
  times[times.length / 2]?

end Chain

end BitcoinLight
