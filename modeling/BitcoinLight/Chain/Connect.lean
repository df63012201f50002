import BitcoinLight.Chain.Basic
import BitcoinLight.Work.Retarget

set_option autoImplicit false

/-!
# Connecting headers to chains

A new header connects to a chain when it builds on the chain's tip, carries the target the retarget
rules ask for (when the chain holds the headers those rules read), and meets its own target. A
header that builds on an older record of the chain starts a fork: the chain up to that record,
extended by the header. Connecting a run of headers to several candidate chains keeps every
candidate, adds forks as they appear, and freezes a candidate at the first header it rejects.
The best tip is one of most work, and of those the earliest timestamp; repeated hashes count once.
-/

namespace BitcoinLight

/-- What checking a header against a chain's tip found. -/
inductive TipCheck where
  /-- The header connects; the record it gets. -/
  | connected (r : BlockRecord)
  /-- The header does not build on the tip. -/
  | badPrev (h : Header)
  /-- The header's target is not the one required, or is unusable. -/
  | badPow (h : Header)
  /-- The header's hash misses its target. -/
  | badNonce (h : Header)
  deriving DecidableEq

namespace TipCheck

def isSuccess : TipCheck → Bool
  | .connected _ => true
  | _ => false

/-- A short text for the outcome. -/
def reason : TipCheck → String
  | .connected _ => "connected"
  | .badPrev _ => "bad previous block hash"
  | .badPow _ => "bad proof of work"
  | .badNonce _ => "bad nonce"

end TipCheck

/-- Checks `header` as the next tip of `c`. The target rule is applied when the chain holds the
headers it reads; proof of work is always checked. -/
def checkNewTip (header : Header) (c : Chain) (p : Params) : TipCheck :=
  match c.tip? with
  | none => .badPrev header
  | some tip =>
    if header.prevHash ≠ tip.hash then .badPrev header
    else
      let records := c.records.toArray
      let expected := nextWorkRequired tip.header tip.height header p
        (fun h => (c.atHeightIn records h).map (·.header))
      match expected with
      | some b => if b ≠ header.bits then .badPow header else checkWork header tip p
      | none => checkWork header tip p
where
  /-- The last step: the header's own proof of work. -/
  checkWork (header : Header) (tip : BlockRecord) (p : Params) : TipCheck :=
    match checkProofOfWork header p with
    | .ok true => .connected (tip.child header)
    | .ok false => .badNonce header
    | .error _ => .badPow header

/-- What adding a header to a chain does. -/
inductive Extension where
  /-- The header extends the chain's tip. -/
  | extend (r : BlockRecord)
  /-- The header builds on an older record; `fork` is the chain through it, with the header. -/
  | reorg (r : BlockRecord) (fork : Chain)
  /-- The header does not connect. -/
  | rejected (failure : TipCheck)
  deriving DecidableEq

/-- Adds `header` to `c`: on the tip, or as a fork from the newest record it builds on. -/
def connectTip (header : Header) (c : Chain) (p : Params) : Extension :=
  let onTip := match c.tip? with
    | some tip => tip.hash == header.prevHash
    | none => false
  if onTip then
    match checkNewTip header c p with
    | .connected r => .extend r
    | failure => .rejected failure
  else
    match c.prefixThrough header.prevHash with
    | none => .rejected (.badPrev header)
    | some fork =>
      match checkNewTip header fork p with
      | .connected r => .reorg r (fork.push r)
      | failure => .rejected failure

/-- A candidate chain while a run of headers is connected: the chain, the records it gained, and,
once a header is rejected, that header and why. -/
structure ChainUpdate where
  chain : Chain
  connected : List BlockRecord
  failure : Option (Header × TipCheck) := none
  deriving DecidableEq

namespace ChainUpdate

def start (c : Chain) : ChainUpdate := ⟨c, [], none⟩

def failed (u : ChainUpdate) : Bool := u.failure.isSome

/-- Connects one header: a rejected candidate stays as it is; an accepted header extends it; a
fork yields a new candidate before the unchanged one. -/
def step (p : Params) (header : Header) (u : ChainUpdate) : List ChainUpdate :=
  match u.failure with
  | some _ => [u]
  | none =>
    match connectTip header u.chain p with
    | .extend r => [⟨u.chain.push r, u.connected ++ [r], none⟩]
    | .reorg r fork => [⟨fork, [r], none⟩, u]
    | .rejected failure => [⟨u.chain, u.connected, some (header, failure)⟩]

end ChainUpdate

def connectHeaders (headers : List Header) (chains : List Chain) (p : Params) : List ChainUpdate :=
  headers.foldl (fun us h => us.flatMap (ChainUpdate.step p h)) (chains.map ChainUpdate.start)

/-- The tips of most work, each hash once, in the order given. -/
def mostWorkTips (tips : List BlockRecord) : List BlockRecord :=
  match tips.map (·.work) |>.max? with
  | none => []
  | some m =>
    firstOfEachKey (·.hash) (tips.filter (·.work == m))

/-- The first of `rs` with the least timestamp. -/
def earliest : List BlockRecord → Option BlockRecord
  | [] => none
  | r :: rest =>
    match earliest rest with
    | some e => if e.timestamp < r.timestamp then some e else some r
    | none => some r

def bestTip (tips : List BlockRecord) : Option BlockRecord := earliest (mostWorkTips tips)

end BitcoinLight
