import BitcoinLight.Work.Target
import BitcoinLight.Work.Header

set_option autoImplicit false

/-!
# Networks and their consensus parameters

Each network fixes its genesis header, the easiest target a header may carry, and its retarget
rules: every 2016 blocks the target is adjusted toward ten minutes a block; test networks allow
minimum-difficulty blocks after twenty minutes; the regression-test network never retargets.
-/

namespace BitcoinLight

/-- The networks. -/
inductive Network where
  | mainnet | testnet | signet | regtest
  deriving DecidableEq, Repr

namespace Network

def name : Network → String
  | .mainnet => "mainnet" | .testnet => "testnet" | .signet => "signet" | .regtest => "regtest"

/-- Reads a network name, ignoring ASCII case and accepting the usual aliases. -/
def ofString (s : String) : Except Error Network :=
  match s.map Char.toLower with
  | "mainnet" | "main" | "bitcoin" => .ok .mainnet
  | "testnet" | "testnet3" | "test" => .ok .testnet
  | "signet" => .ok .signet
  | "regtest" => .ok .regtest
  | other => .error (.config ("unknown network: " ++ other))

end Network

/-- The consensus parameters of a network. -/
structure Params where
  network : Network
  genesis : Header
  powLimit : Nat
  interval : Nat := 2016
  spacing : Nat := 600
  timespan : Nat := 2016 * 600
  allowMinDifficulty : Bool
  noRetargeting : Bool

def genesisMerkleRoot : Hash256 :=
  Hash256.ofNatBE 0x3ba3edfd7a7b12b27ac72c3e67768f617fc81bc3888a51323a9fb8aa4b1e5e4a

/-- The parameters of a network. -/
def Network.params (n : Network) : Params :=
  let (time, bits, nonce) : UInt32 × UInt32 × UInt32 := match n with
    | .mainnet => (1231006505, 0x1d00ffff, 2083236893)
    | .testnet => (1296688602, 0x1d00ffff, 414098458)
    | .signet => (1598918400, 0x1e0377ae, 52613770)
    | .regtest => (1296688602, 0x207fffff, 2)
  { network := n
    genesis := ⟨1, Hash256.zero, genesisMerkleRoot, time, bits, nonce⟩
    powLimit := match n with
      | .mainnet | .testnet => Work.maxU256 >>> 32
      | .signet => (Work.expandTarget 0x1e0377ae).target
      | .regtest => Work.maxU256 >>> 1
    allowMinDifficulty := n == .testnet || n == .regtest
    noRetargeting := n == .regtest }

namespace Params

def genesisHash (p : Params) : Hash256 := p.genesis.hash

def powLimitBits (p : Params) : UInt32 := Work.compressTarget p.powLimit

end Params

end BitcoinLight
