import BitcoinLight.Network

set_option autoImplicit false

/-!
# Chain settings

The settings of a chain state: the network, how many headers one pass of chain-work
recalculation reads, how many filter headers and filters a sync request asks for, how many
headers a candidate chain keeps in memory, and the log settings. A usable setting has positive
batch sizes and keeps at least one retarget interval of headers, which also covers the eleven
that the median time past reads.
-/

namespace BitcoinLight

/-- Chain settings. Batch sizes are 32-bit counts; the cache depth is a machine-word count. -/
structure Config where
  network : Network := .mainnet
  chainWorkBatchSize : Nat := 2016
  filterHeaderBatchSize : Nat := 2000
  filterBatchSize : Nat := 1000
  cacheDepth : Nat := 2 * 2016
  logLevel : String := "info"
  logJson : Bool := false
  deriving DecidableEq, Repr

namespace Config

def forTesting : Config :=
  { network := .regtest, chainWorkBatchSize := 10, filterHeaderBatchSize := 20,
    filterBatchSize := 10, cacheDepth := 2016, logLevel := "debug" }

def minCacheDepth : Nat := max 2016 11

/-- Checks the batch sizes, then the cache depth. -/
def validate (c : Config) : Except Error Unit :=
  if c.chainWorkBatchSize = 0 then .error (.config "chain_work_batch_size must be positive")
  else if c.filterHeaderBatchSize = 0 ∨ c.filterBatchSize = 0 then
    .error (.config "filter batch sizes must be positive")
  else if c.cacheDepth < minCacheDepth then
    .error (.config s!"chain_cache_depth {c.cacheDepth} below minimum {minCacheDepth}")
  else .ok ()

def params (c : Config) : Params := c.network.params

end Config

/-! ## Log levels

The five levels of log output, read from a name without regard to case. A name that is not one
of them, or "warning", reads as the default level, info.
-/

/-- How much is logged. -/
inductive LogLevel where
  | trace | debug | info | warn | error
  deriving DecidableEq, Repr

namespace LogLevel

def name : LogLevel → String
  | .trace => "trace" | .debug => "debug" | .info => "info" | .warn => "warn" | .error => "error"

/-- Reads a level name in any case; "warning" is warn, and anything else is info. Only ASCII
letters matter for the match, since no other character lowercases to one that these names use. -/
def ofString (s : String) : LogLevel :=
  match s.map Char.toLower with
  | "trace" => .trace
  | "debug" => .debug
  | "info" => .info
  | "warn" | "warning" => .warn
  | "error" => .error
  | _ => .info

end LogLevel

end BitcoinLight
