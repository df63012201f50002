import BitcoinLight.Proofs.Handler

set_option autoImplicit false

/-!
# The filter-header chain

Every reachable store of filter headers is a chain by hash: a record links to the zero hash at
genesis, or to a stored record one height below. The look-up by hash then finds a record one
below as well, unless two stored records share a hash: a double SHA-256 collision, or a record
hashing to the zero hash (`Store.FilterHeaderCollision`).

The link check compares only heights, so the record below need not be that of the block's own
parent: a block may link to the filter header of its parent's sibling. It is the parent's once
no other stored record one below carries the linked hash.
-/

namespace BitcoinLight

/-- Two stored filter headers share a hash but not a link (a double SHA-256 collision), or one
hashes to the zero hash that the genesis link names (a preimage of zero). -/
def Store.FilterHeaderCollision (s : Store) : Prop :=
  (∃ g ∈ s.filterHeaders, ∃ g' ∈ s.filterHeaders, g.hash = g'.hash ∧ g.link ≠ g'.link) ∨
    ∃ g ∈ s.filterHeaders, g.hash = Hash256.zero

namespace FilterStore

variable {s : Store} {g g' : FilterHeaderRecord}

theorem prevHeader_eq_of_hash_eq (hnc : ¬s.FilterHeaderCollision) (hg : g ∈ s.filterHeaders)
    (hg' : g' ∈ s.filterHeaders) (h : g.hash = g'.hash) : g.prevHeader = g'.prevHeader := by
  by_contra hne
  exact hnc (.inl ⟨g, hg, g', hg', h, fun hl => hne (congrArg FilterHeader.prevHeader hl)⟩)

theorem height_eq_zero_of_prevHeader (hf : FilterStore s) (hnc : ¬s.FilterHeaderCollision)
    (hg : g ∈ s.filterHeaders) (h : g.prevHeader = Hash256.zero) : g.height = 0 := by
  by_contra h0
  obtain ⟨x, hx, hxh, -⟩ := hf.below g hg (Nat.pos_of_ne_zero h0)
  exact hnc (.inr ⟨x, hx, hxh.trans h⟩)

theorem height_eq_of_hash_eq (hf : FilterStore s) (hnc : ¬s.FilterHeaderCollision) :
    ∀ n, ∀ g ∈ s.filterHeaders, g.height = n →
      ∀ g' ∈ s.filterHeaders, g.hash = g'.hash → g'.height = n := by
  intro n
  -- on the height of the first: equal hashes give equal links, so the records below are equal too
  induction n with
  | zero =>
    intro g hg hgh g' hg' hh
    refine hf.height_eq_zero_of_prevHeader hnc hg' ?_
    rw [← prevHeader_eq_of_hash_eq hnc hg hg' hh]
    exact hf.genesis_link g hg hgh
  | succ n ih =>
    intro g hg hgh g' hg' hh
    have hprev := prevHeader_eq_of_hash_eq hnc hg hg' hh
    obtain ⟨x, hx, hxh, hxn⟩ := hf.below g hg (by omega)
    have h0 : 0 < g'.height := Nat.pos_of_ne_zero fun h0 => by
      have := hf.height_eq_zero_of_prevHeader hnc hg (hprev.trans (hf.genesis_link g' hg' h0))
      omega
    obtain ⟨x', hx', hxh', hxn'⟩ := hf.below g' hg' h0
    have := ih x hx (by omega) x' hx' (by rw [hxh, hxh', hprev])
    omega

theorem findFilterHeader_below (hf : FilterStore s) (hnc : ¬s.FilterHeaderCollision)
    (hg : g ∈ s.filterHeaders) (h0 : 0 < g.height) :
    ∃ x, s.findFilterHeader g.prevHeader = some x ∧ x ∈ s.filterHeaders ∧ x.height + 1 = g.height := by
  obtain ⟨y, hy, hyh, hyg⟩ := hf.below g hg h0
  obtain ⟨x, hx⟩ := hf.findFilterHeader_isSome hy
  obtain ⟨hxm, hxh⟩ := hf.findFilterHeader_spec hx
  refine ⟨x, hyh ▸ hx, hxm, ?_⟩
  rw [hf.height_eq_of_hash_eq hnc _ y hy rfl x hxm hxh.symm]
  exact hyg

end FilterStore

/-- In every reachable state each stored filter header is found by its block, for a stored block
at its height, and hashes its own link; it links to the zero hash at genesis and otherwise, unless
two stored records share a hash, to a record one below that the look-up by hash finds; a filter
header that a request stores matches the checkpoint, if any, of the view it was served through;
and each stored filter is found by its block, hashes its bytes, and is committed to by its block's
filter header. -/
theorem reachable_filter_chain {config : Config} {h : Handler} (hr : Reachable config h) :
    (∀ f ∈ h.node.store.filterHeaders, h.node.store.filterHeaderOf f.blockHash = some f ∧
      ∃ r ∈ h.node.store.headers, r.hash = f.blockHash ∧ r.height = f.height) ∧
    (∀ f ∈ h.node.store.filterHeaders, f.hash = f.link.hash) ∧
    (∀ f ∈ h.node.store.filterHeaders, f.height = 0 → f.prevHeader = Hash256.zero) ∧
    (h.node.store.FilterHeaderCollision ∨ ∀ f ∈ h.node.store.filterHeaders, 0 < f.height →
      ∃ g, h.node.store.findFilterHeader f.prevHeader = some g ∧
        g ∈ h.node.store.filterHeaders ∧ g.height + 1 = f.height) ∧
    (∀ (req : Request), ∀ u ∈ h.views, ∀ f ∈ (h.serve req u).node.store.filterHeaders,
      f ∉ h.node.store.filterHeaders → ∀ e, u.checkpointOf f.blockHash = some e → f.hash = e) ∧
    ∀ x ∈ h.node.store.filters, h.node.store.filterOf x.blockHash = some x ∧
      x.hash = filterHash x.bytes ∧ ∃ g ∈ h.node.store.filterHeaders,
        g.blockHash = x.blockHash ∧ g.filterHash = x.hash ∧ g.height = x.height := by
  have hv := hr.valid
  have hf := hv.filters
  refine ⟨fun f hfm => ⟨hf.filterHeaderOf_mem hfm, hf.block f hfm⟩,
    fun f hfm => (hf.link_hash f hfm).symm, hf.genesis_link, ?_,
    fun req u hu => (hv.serve hu req).checkpoints,
    fun x hx => ⟨Store.filterOf_of_mem hf.filters_nodup hx, hf.filter_hash x hx, hf.filter_header x hx⟩⟩
  by_cases hnc : h.node.store.FilterHeaderCollision
  · exact .inl hnc
  · exact .inr fun f hfm h0 => hf.findFilterHeader_below hnc hfm h0

/-! ## Whose filter header a block links to -/

/-- A stored filter header above genesis links to the filter header of its block's parent when no
other stored record one below carries the linked hash. -/
theorem filter_header_links_parent {config : Config} {h : Handler} (hr : Reachable config h)
    {fh : FilterHeaderRecord} {B : BlockRecord} (hfh : fh ∈ h.node.store.filterHeaders)
    (hB : B ∈ h.node.store.headers) (hb : B.hash = fh.blockHash) (h0 : 0 < fh.height)
    (hsib : ∀ g ∈ h.node.store.filterHeaders, g.hash = fh.prevHeader → g.height + 1 = fh.height →
      g.blockHash = B.prevHash) :
    ∃ P ∈ h.node.store.headers, P.hash = B.prevHash ∧
      ∃ g, h.node.store.filterHeaderOf P.hash = some g ∧ g.hash = fh.prevHeader := by
  have hv := hr.valid
  -- the block is the stored block of the filter header, so above genesis it has a parent
  obtain ⟨r, hr', hrb, hrh⟩ := hv.filters.block fh hfh
  have hrB : r = B := hv.headers.eq_of_hash_eq hr' hB (hrb.trans hb.symm)
  subst hrB
  obtain ⟨P, hP, ha⟩ := hv.headers.parent r hr' (hrh ▸ h0)
  obtain ⟨g, hg, hgh, hgn⟩ := hv.filters.below fh hfh h0
  refine ⟨P, hP, ha.prev_eq.symm, g, ?_, hgh⟩
  rw [← ha.prev_eq, ← hsib g hg hgh hgn]
  exact hv.filters.filterHeaderOf_mem hg

/-! ## Two siblings on the regtest genesis -/

def Hash256.replicate (b : UInt8) : Hash256 := ⟨⟨Array.replicate 32 b⟩, Array.size_replicate⟩

def siblingA : Header :=
  ⟨0x20000000, Network.regtest.params.genesisHash, Hash256.replicate 1, 1296689202, 0x207fffff, 2⟩

def siblingB : Header :=
  ⟨0x20000000, Network.regtest.params.genesisHash, Hash256.replicate 2, 1296689202, 0x207fffff, 0⟩

def childOfB : Header :=
  ⟨0x20000000, siblingB.hash, Hash256.replicate 3, 1296689802, 0x207fffff, 0⟩

def genesisLink : FilterHeader := .genesis (Hash256.replicate 0x10)

def siblingALink : FilterHeader := genesisLink.next (Hash256.replicate 0x11)

def siblingBLink : FilterHeader := genesisLink.next (Hash256.replicate 0x12)

/-! The hashes of the test blocks and links. Each is computed once here, as the number its digest
stands for, from the one before it where a header or link names another's hash; facts about them
elsewhere compare these numbers. -/

def regtestGenesisDigest : {n : Nat // Network.regtest.params.genesisHash = Hash256.ofNatBE n} :=
  ⟨0x06226e46111a0b59caaf126043eb5bbf28c34f3a5e332a1fc7b2b73cf188910f, by decide +kernel⟩

theorem regtest_genesisHash_value : Network.regtest.params.genesisHash =
    Hash256.ofNatBE 0x06226e46111a0b59caaf126043eb5bbf28c34f3a5e332a1fc7b2b73cf188910f :=
  regtestGenesisDigest.2

theorem forTesting_genesis_hash : (BlockRecord.genesis Config.forTesting.params).hash =
    Hash256.ofNatBE 0x06226e46111a0b59caaf126043eb5bbf28c34f3a5e332a1fc7b2b73cf188910f :=
  regtest_genesisHash_value

def siblingADigest : {n : Nat // siblingA.hash = Hash256.ofNatBE n} :=
  ⟨0x70615354d0b8b525412b849941a010b0ac5b42a260c7571837df30d62ad7a701, by
    rw [siblingA, regtest_genesisHash_value]
    decide +kernel⟩

theorem siblingA_hash : siblingA.hash =
    Hash256.ofNatBE 0x70615354d0b8b525412b849941a010b0ac5b42a260c7571837df30d62ad7a701 :=
  siblingADigest.2

def siblingBDigest : {n : Nat // siblingB.hash = Hash256.ofNatBE n} :=
  ⟨0x4b80f57312b392c5ced1e7a0f92f536985f43f05c868fb9cc561a146f91c1514, by
    rw [siblingB, regtest_genesisHash_value]
    decide +kernel⟩

theorem siblingB_hash : siblingB.hash =
    Hash256.ofNatBE 0x4b80f57312b392c5ced1e7a0f92f536985f43f05c868fb9cc561a146f91c1514 :=
  siblingBDigest.2

def childOfBDigest : {n : Nat // childOfB.hash = Hash256.ofNatBE n} :=
  ⟨0x8432443371f4db41d9338958d650239688ee3c44944e6bea5ffa49e5b62bac5f, by
    rw [childOfB, siblingB_hash]
    decide +kernel⟩

theorem childOfB_hash : childOfB.hash =
    Hash256.ofNatBE 0x8432443371f4db41d9338958d650239688ee3c44944e6bea5ffa49e5b62bac5f :=
  childOfBDigest.2

def genesisLinkDigest : {n : Nat // genesisLink.hash = Hash256.ofNatBE n} :=
  ⟨0x2cccb83db0f2763bf5540e3c43483575e3bed480df3abb8402ba00d3c5d2abd4, by decide +kernel⟩

theorem genesisLink_hash : genesisLink.hash =
    Hash256.ofNatBE 0x2cccb83db0f2763bf5540e3c43483575e3bed480df3abb8402ba00d3c5d2abd4 :=
  genesisLinkDigest.2

def siblingALinkDigest : {n : Nat // siblingALink.hash = Hash256.ofNatBE n} :=
  ⟨0x5b03106764b251f3d98db1f30056b58522b2510ca0245a198bdf6fdfaf303b0a, by
    rw [siblingALink, FilterHeader.next, genesisLink_hash]
    decide +kernel⟩

theorem siblingALink_hash : siblingALink.hash =
    Hash256.ofNatBE 0x5b03106764b251f3d98db1f30056b58522b2510ca0245a198bdf6fdfaf303b0a :=
  siblingALinkDigest.2

def siblingBLinkDigest : {n : Nat // siblingBLink.hash = Hash256.ofNatBE n} :=
  ⟨0x608f0fd14de74593a4e75c1c06ca55cba26a080ab93bd33e176e2b221ef12432, by
    rw [siblingBLink, FilterHeader.next, genesisLink_hash]
    decide +kernel⟩

theorem siblingBLink_hash : siblingBLink.hash =
    Hash256.ofNatBE 0x608f0fd14de74593a4e75c1c06ca55cba26a080ab93bd33e176e2b221ef12432 :=
  siblingBLinkDigest.2

def siblingARun : Handler :=
  [Request.headers [siblingA], .filterHeaders [genesisLink, siblingALink] siblingA.hash].foldl
    Handler.serveLatest ⟨Node.opened Config.forTesting, [View.opened Config.forTesting]⟩

/-- Filter headers for the genesis block and the first sibling, then for the second sibling, then
for the block on the second sibling linked to the first sibling's filter header. -/
def splicedRun : Handler :=
  [Request.headers [siblingA], .headers [siblingB], .headers [childOfB],
    .filterHeaders [genesisLink, siblingALink] siblingA.hash,
    .filterHeaders [siblingBLink] siblingB.hash,
    .filterHeaders [siblingALink.next (Hash256.replicate 0x13)] childOfB.hash].foldl
    Handler.serveLatest ⟨Node.opened Config.forTesting, [View.opened Config.forTesting]⟩

end BitcoinLight
