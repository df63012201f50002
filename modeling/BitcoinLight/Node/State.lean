import BitcoinLight.Store.Basic
import BitcoinLight.Settings.Config

set_option autoImplicit false

/-!
# The chain state of a node

A node keeps its headers and filters in a store, and works through views. A view holds the
settings, the candidate chains kept in memory, and the filter checkpoints. Every write that
changes the candidate chains gives a new view and counts one generation; a view whose generation
is no longer the latest is stale, and reloads its chains from the store before it writes. Views
taken from one opening of the store share one generation counter and one callback channel; the
number of that opening is the view's session.

Steps run in `NodeStep`: a state-and-error monad over the node's shared state, which keeps what
a step wrote before it failed. Events for the callbacks go to an outbox with their session.
-/

namespace BitcoinLight

/-- What the callbacks are told. -/
inductive ChainEvent where
  | headersConnected (rs : List BlockRecord)
  | filterHeadersConnected (fs : List FilterHeaderRecord)
  | filtersConnected (fs : List FilterRecord)
  | syncFlagChanged (syncing : Bool)

/-- The state views share: the store, the generation counter of each session, and the events
sent so far with their session, oldest first. -/
structure Node where
  store : Store := Store.empty
  generations : List Nat := []
  outbox : List (Nat × ChainEvent) := []

/-- A view of the chain state. -/
structure View where
  config : Config
  chains : List Chain
  checkpoints : List (Hash256 × Hash256) := []
  session : Nat
  generation : Nat := 0

abbrev NodeStep := EStateM Error Node

namespace Node

def generationOf (n : Node) (session : Nat) : Nat := n.generations.getD session 0

end Node

namespace View

def params (v : View) : Params := v.config.params

def tips (v : View) : List BlockRecord := v.chains.filterMap (·.tip?)

def staleIn (v : View) (n : Node) : Bool := n.generationOf v.session != v.generation

def checkpointOf (v : View) (block : Hash256) : Option Hash256 :=
  (v.checkpoints.find? (·.1 == block)).map (·.2)

def checkpointCount (v : View) : Nat := v.checkpoints.length

def withCheckpoint (v : View) (block fh : Hash256) : View :=
  { v with checkpoints := (v.checkpoints.filter (·.1 != block)) ++ [(block, fh)] }

end View

namespace NodeStep

def store : NodeStep Store := do return (← get).store

def setStore (s : Store) : NodeStep Unit := modify fun n => { n with store := s }

/-- A write to the store; its failure is a store error. -/
def write (r : Except String Store) : NodeStep Unit :=
  match r with
  | .ok s => setStore s
  | .error m => throw (.store m)

/-- A check inside a step; its failure fails the step. -/
def ofExcept {α : Type} (r : Except Error α) : NodeStep α :=
  match r with
  | .ok a => pure a
  | .error e => throw e

/-- Runs a step and gives its failure as a value, keeping what it wrote. -/
def attempt {α : Type} (x : NodeStep α) : NodeStep (Except Error α) := fun n =>
  match x n with
  | .ok a n => .ok (.ok a) n
  | .error e n => .ok (.error e) n

def dispatch (v : View) (e : ChainEvent) : NodeStep Unit :=
  modify fun n => { n with outbox := n.outbox ++ [(v.session, e)] }

def isStale (v : View) : NodeStep Bool := do
  return v.staleIn (← get)

def currentChains (v : View) : NodeStep (List Chain) := do
  if ← isStale v then return (← store).blockchains v.config.cacheDepth
  else return v.chains

/-- Counts a new generation, and gives the view of it with these chains. -/
def commit (v : View) (chains : List Chain) : NodeStep View := do
  let n ← get
  let g := n.generationOf v.session + 1
  set { n with generations := n.generations.set v.session g }
  return { v with chains, generation := g }

/-- Opens the store with these settings as a new session: seeds the genesis header into an
empty store, refuses a store whose height-zero records do not include this network's genesis,
and loads the candidate chains. -/
def openStore (config : Config) : NodeStep View := do
  ofExcept config.validate
  let genesis := BlockRecord.genesis config.params
  let s ← store
  let atZero := s.atHeight 0
  if s.maxHeight.isNone then write (s.createAll [genesis])
  else if !atZero.isEmpty && !atZero.any (·.hash == genesis.hash) then
    throw (.config s!"store genesis does not match {config.network.name} genesis {genesis.hash.toDisplayHex}")
  let s ← store
  let n ← get
  let session := n.generations.length
  set { n with generations := n.generations ++ [0] }
  return { config, chains := s.blockchains config.cacheDepth, session }

end NodeStep

end BitcoinLight
