import BitcoinLight.Proofs.HeaderRuns
import BitcoinLight.Proofs.Resubmission

set_option autoImplicit false

/-!
# Filter-header chains on the test handler

Runs of filter-header requests on the handler opened for tests, after the header runs. A run of
filter-header links for stored blocks that have no filter header yet puts the records of the links
in front of the stored ones (`Handler.Stores.serveLatest_filterHeaders`).

Two runs settle whose filter header a block links to. After the first sibling and the filter
headers up to it, the first sibling links to the genesis block's filter header, its parent's.
After both siblings, a block on the second, and filter headers for each of them, the block on the
second sibling links to the filter header of the first: the link check compares only heights.

A third run stores, after the fork, filter headers whose link for the first sibling commits to the
double SHA-256 of a real filter, and then that filter: the filter invariants, the acceptance of
valid filter data and its resubmission are read off it. Last, a list of store writes of the test
records, checked on the writes alone, keeps every store index in agreement.
-/

namespace BitcoinLight

/-! ## A run of filter headers for stored blocks -/

namespace NodeStep

variable {config : Config} {h : Handler} {v : View}

theorem processFilterHeaders_stores_run (hv : Valid config h) (hvm : v ∈ h.views)
    (hcov : h.node.store.IndexCovers) {blocks : List BlockRecord} {first stop : BlockRecord}
    (hlk : Linked blocks) (hst : ∀ b ∈ blocks, b ∈ h.node.store.headers)
    (hfirst : blocks.head? = some first) (hlast : blocks.getLast? = some stop)
    (h32 : stop.height < 2 ^ 32) {prev : Hash256} {hashes : List Hash256}
    (hlen : hashes.length = blocks.length)
    (hprev : (first.height = 0 ∧ prev = Hash256.zero) ∨
      ∃ g ∈ h.node.store.filterHeaders, g.height + 1 = first.height ∧ g.hash = prev)
    (hnc : ¬LinksCollide (h.node.store.filterHeaders.map (·.link) ++ chainFilterHeaders prev hashes))
    (hnew : ∀ b ∈ blocks, h.node.store.filterHeaderOf b.hash = none)
    (hcp : v.checkpoints = []) :
    ∃ n', processFilterHeaders v (chainFilterHeaders prev hashes) stop.hash h.node = .ok v n' ∧
      n'.store = (View.filterHeaderBatch (chainFilterHeaders prev hashes) ⟨blocks⟩).foldl
        Store.putFilterHeader h.node.store := by
  have hcs := hv.chains v hvm
  have hnd := hv.headers.nodup
  have hnone : ∀ b, v.checkpointOf b = none := fun b => by simp [View.checkpointOf, hcp]
  -- no block has a record, so every record of the run is new
  have hsame : ∀ p ∈ (chainFilterHeaders prev hashes).zip blocks, ∀ e,
      h.node.store.filterHeaderOf p.2.hash = some e → e.hash = p.1.hash := by
    intro p hp e he
    rw [hnew p.2 (List.of_mem_zip hp).2] at he
    cases he
  obtain ⟨n', hrun, -⟩ := processFilterHeaders_accepts hv hvm hcov hlk hst hfirst hlast h32 hlen
    hprev hnc hsame fun p _ e he => by rw [hnone] at he; cases he
  have hne : chainFilterHeaders prev hashes ≠ [] := by
    intro hnil
    have := congrArg List.length hnil
    rw [length_chainFilterHeaders, hlen, List.length_nil] at this
    exact List.ne_nil_of_mem (List.mem_of_getLast? hlast) (List.length_eq_zero_iff.mp this)
  obtain ⟨-, b, hb, -, fresh, hfresh, hstore⟩ := processFilterHeaders_ok_run hrun hne
  have hstop : stop ∈ h.node.store.headers := hst stop (List.mem_of_getLast? hlast)
  rw [View.requireHeader_eq hcs hnd hstop] at hb
  cases hb
  have hchain : v.chainEndingAt h.node.store stop (chainFilterHeaders prev hashes).length =
      ⟨blocks⟩ := by
    rw [length_chainFilterHeaders, hlen]
    exact congrArg Chain.mk
      (View.chainEndingAt_records hcs hnd hcov hv.headers.hasParents hlk hst hlast h32)
  rw [hchain, View.newFilterHeaders_eq fun f hf e he => ?_] at hfresh
  · cases hfresh
    refine ⟨n', hrun, hstore.trans ?_⟩
    rw [List.filter_eq_self.mpr fun f hf => ?_]
    obtain ⟨⟨l, b⟩, hq, rfl⟩ := List.mem_map.mp hf
    simp [FilterHeaderRecord.ofLink, hnew b (List.of_mem_zip hq).2]
  · obtain ⟨⟨l, b⟩, hq, rfl⟩ := List.mem_map.mp hf
    rw [show (FilterHeaderRecord.ofLink l b.hash b.height).blockHash = b.hash from rfl,
      hnew b (List.of_mem_zip hq).2] at he
    cases he

end NodeStep

theorem Handler.serveLatest_filterHeaders {config : Config} {h : Handler}
    (hr : Reachable config h) {v : View} {vs : List View} (hviews : h.views = v :: vs)
    (hcp : v.checkpoints = []) {blocks : List BlockRecord} {first stop : BlockRecord}
    (hlk : Linked blocks) (hst : ∀ b ∈ blocks, b ∈ h.node.store.headers)
    (hfirst : blocks.head? = some first) (hlast : blocks.getLast? = some stop)
    (h32 : stop.height < 2 ^ 32) {prev : Hash256} {hashes : List Hash256}
    (hlen : hashes.length = blocks.length)
    (hprev : (first.height = 0 ∧ prev = Hash256.zero) ∨
      ∃ g ∈ h.node.store.filterHeaders, g.height + 1 = first.height ∧ g.hash = prev)
    (hnc : ¬LinksCollide (h.node.store.filterHeaders.map (·.link) ++ chainFilterHeaders prev hashes))
    (hnew : ∀ b ∈ blocks, h.node.store.filterHeaderOf b.hash = none) :
    (h.serveLatest (.filterHeaders (chainFilterHeaders prev hashes) stop.hash)).views =
        v :: h.views ∧
      (h.serveLatest (.filterHeaders (chainFilterHeaders prev hashes) stop.hash)).node.store =
        (View.filterHeaderBatch (chainFilterHeaders prev hashes) ⟨blocks⟩).foldl
          Store.putFilterHeader h.node.store := by
  obtain ⟨n', hrun, hstore⟩ := NodeStep.processFilterHeaders_stores_run hr.valid
    (hviews ▸ List.mem_cons_self) hr.indexCovers hlk hst hfirst hlast h32 hlen hprev hnc hnew hcp
  obtain ⟨n, views⟩ := h
  dsimp only at hviews
  subst hviews
  have hstep : Handler.serveLatest ⟨n, v :: vs⟩
      (.filterHeaders (chainFilterHeaders prev hashes) stop.hash) = ⟨n', v :: v :: vs⟩ := by
    simp only [Handler.serveLatest, Handler.serve, Request.run, hrun]
  rw [hstep]
  exact ⟨rfl, hstore⟩

theorem Store.foldl_putFilterHeader_fresh : ∀ (fs : List FilterHeaderRecord) (s : Store),
    (fs.map (·.blockHash)).Nodup → (∀ f ∈ fs, ∀ g ∈ s.filterHeaders, g.blockHash ≠ f.blockHash) →
      (fs.foldl Store.putFilterHeader s).filterHeaders = fs.reverse ++ s.filterHeaders
  | [], _, _, _ => rfl
  | f :: fs, s, hnd, hfresh => by
    obtain ⟨hf, hnd'⟩ := List.nodup_cons.mp hnd
    have hkeep : s.filterHeaders.filter (·.blockHash != f.blockHash) = s.filterHeaders :=
      List.filter_eq_self.mpr fun g hg => by simpa using hfresh f List.mem_cons_self g hg
    -- after the first write the rest are still new: their blocks differ from the first's
    have hfresh' : ∀ f' ∈ fs, ∀ g ∈ (s.putFilterHeader f).filterHeaders,
        g.blockHash ≠ f'.blockHash := by
      intro f' hf' g hg
      rw [Store.putFilterHeader_filterHeaders, hkeep] at hg
      rcases List.mem_cons.mp hg with rfl | hg
      · intro heq
        exact hf (List.mem_map.mpr ⟨f', hf', heq.symm⟩)
      · exact hfresh f' (List.mem_cons_of_mem _ hf') g hg
    rw [List.foldl_cons, Store.foldl_putFilterHeader_fresh fs _ hnd' hfresh',
      Store.putFilterHeader_filterHeaders, hkeep, List.reverse_cons, List.append_assoc,
      List.singleton_append]

/-- A reachable handler whose latest view has no checkpoints, storing the block records `records`
and the filter-header records `filterRecords`. -/
structure Handler.Stores (config : Config) (h : Handler) (records : List BlockRecord)
    (filterRecords : List FilterHeaderRecord) : Prop where
  reachable : Reachable config h
  latest : ∃ v vs, h.views = v :: vs ∧ v.checkpoints = []
  headers : h.node.store.headers = records
  filterHeaders : h.node.store.filterHeaders = filterRecords

theorem Handler.Reads.stores {config : Config} {h : Handler} {cs : List Chain}
    {rs : List BlockRecord} (hh : h.Reads config cs rs) : h.Stores config rs [] :=
  let ⟨v, vs, hv, _, _, hcp⟩ := hh.latest
  ⟨hh.reachable, ⟨v, vs, hv, hcp⟩, hh.headers, hh.filterHeaders⟩

theorem View.filterHeaderBatch_blockHashes {links : List FilterHeader} {blocks : List BlockRecord}
    (hlen : blocks.length ≤ links.length) :
    (View.filterHeaderBatch links ⟨blocks⟩).map (·.blockHash) = blocks.map (·.hash) := by
  calc (View.filterHeaderBatch links ⟨blocks⟩).map (·.blockHash)
      = ((links.zip blocks).map Prod.snd).map (·.hash) := by
        simp only [View.filterHeaderBatch, List.map_map]
        rfl
    _ = blocks.map (·.hash) := by rw [List.map_snd_zip hlen]

theorem Handler.Stores.serveLatest_filterHeaders {config : Config} {h : Handler}
    {rs : List BlockRecord} {fs : List FilterHeaderRecord} (hh : h.Stores config rs fs)
    {blocks : List BlockRecord} {first stop : BlockRecord}
    (hlk : Linked blocks) (hst : ∀ b ∈ blocks, b ∈ rs)
    (hfirst : blocks.head? = some first) (hlast : blocks.getLast? = some stop)
    (h32 : stop.height < 2 ^ 32) {prev : Hash256} {hashes : List Hash256}
    (hlen : hashes.length = blocks.length)
    (hprev : (first.height = 0 ∧ prev = Hash256.zero) ∨
      ∃ g ∈ fs, g.height + 1 = first.height ∧ g.hash = prev)
    (hnc : ¬LinksCollide (fs.map (·.link) ++ chainFilterHeaders prev hashes))
    (hnd : (blocks.map (·.hash)).Nodup) (hnew : ∀ b ∈ blocks, ∀ g ∈ fs, g.blockHash ≠ b.hash) :
    (h.serveLatest (.filterHeaders (chainFilterHeaders prev hashes) stop.hash)).Stores config rs
      ((View.filterHeaderBatch (chainFilterHeaders prev hashes) ⟨blocks⟩).reverse ++ fs) := by
  obtain ⟨v, vs, hviews, hcp⟩ := hh.latest
  have hnone : ∀ b ∈ blocks, h.node.store.filterHeaderOf b.hash = none := by
    intro b hb
    simp only [Store.filterHeaderOf, List.find?_eq_none, hh.filterHeaders, beq_iff_eq]
    exact hnew b hb
  obtain ⟨hvs, hstore⟩ := Handler.serveLatest_filterHeaders hh.reachable hviews hcp hlk
    (hh.headers ▸ hst) hfirst hlast h32 hlen (hh.filterHeaders ▸ hprev) (hh.filterHeaders ▸ hnc)
    hnone
  have hbatch : (View.filterHeaderBatch (chainFilterHeaders prev hashes) ⟨blocks⟩).map
      (·.blockHash) = blocks.map (·.hash) :=
    View.filterHeaderBatch_blockHashes (by rw [length_chainFilterHeaders, hlen])
  refine ⟨hh.reachable.serveLatest _, ⟨v, h.views, hvs, hcp⟩, ?_, ?_⟩
  · rw [hstore, (Store.foldl_putFilterHeader_frame _ _).1, hh.headers]
  · rw [hstore, Store.foldl_putFilterHeader_fresh _ _ (hbatch ▸ hnd), hh.filterHeaders]
    intro f hf g hg
    obtain ⟨⟨l, b⟩, hq, rfl⟩ := List.mem_map.mp hf
    exact hnew b (List.of_mem_zip hq).2 g (hh.filterHeaders ▸ hg)

/-! ## Filter headers for the three blocks -/

def spliceLinkDigest :
    {n : Nat // (siblingALink.next (Hash256.replicate 0x13)).hash = Hash256.ofNatBE n} :=
  ⟨0xa9e0beec7e984ec03f2ca0a75f059eb4399f9d6700a39cad7d6fa0a278d54030, by
    rw [FilterHeader.next, siblingALink_hash]
    decide +kernel⟩

theorem spliceLink_hash : (siblingALink.next (Hash256.replicate 0x13)).hash =
    Hash256.ofNatBE 0xa9e0beec7e984ec03f2ca0a75f059eb4399f9d6700a39cad7d6fa0a278d54030 :=
  spliceLinkDigest.2

theorem testLinks_hashes :
    ([genesisLink, siblingALink, siblingBLink, siblingALink.next (Hash256.replicate 0x13)].map
      (·.hash)).Nodup ∧
    ∀ l ∈ [genesisLink, siblingALink, siblingBLink, siblingALink.next (Hash256.replicate 0x13)],
      l.hash ≠ Hash256.zero := by
  simp only [List.map_cons, List.map_nil, List.forall_mem_cons, List.not_mem_nil,
    IsEmpty.forall_iff, implies_true, and_true, genesisLink_hash, siblingALink_hash,
    siblingBLink_hash, spliceLink_hash]
  decide

theorem not_linksCollide_of_sub {L ls : List FilterHeader} (hnd : (L.map (·.hash)).Nodup)
    (hz : ∀ l ∈ L, l.hash ≠ Hash256.zero) (hsub : ∀ l ∈ ls, l ∈ L) : ¬LinksCollide ls := by
  rintro (⟨a, ha, b, hb, hab, hne⟩ | ⟨a, ha, ha0⟩)
  · exact hne (List.inj_on_of_nodup_map hnd (hsub a ha) (hsub b hb) hab)
  · exact hz a (hsub a ha) ha0

theorem testLinks_not_collide {ls : List FilterHeader}
    (hsub : ∀ l ∈ ls, l ∈ [genesisLink, siblingALink, siblingBLink,
      siblingALink.next (Hash256.replicate 0x13)]) : ¬LinksCollide ls :=
  not_linksCollide_of_sub testLinks_hashes.1 testLinks_hashes.2 hsub

theorem firstBlocks_linked : Linked [BlockRecord.genesis Config.forTesting.params,
    (BlockRecord.genesis Config.forTesting.params).child siblingA] :=
  ⟨⟨rfl, siblings_prevHash.1⟩, trivial⟩

namespace Handler.Stores

variable {h : Handler} {rs : List BlockRecord}

theorem serveLatest_firstLinks (hh : h.Stores Config.forTesting rs [])
    (hG : BlockRecord.genesis Config.forTesting.params ∈ rs)
    (hA : (BlockRecord.genesis Config.forTesting.params).child siblingA ∈ rs) {x : Hash256}
    (hnc : ¬LinksCollide [genesisLink, genesisLink.next x]) :
    (h.serveLatest (.filterHeaders [genesisLink, genesisLink.next x] siblingA.hash)).Stores
      Config.forTesting rs
      [FilterHeaderRecord.ofLink (genesisLink.next x) siblingA.hash 1,
        FilterHeaderRecord.ofLink genesisLink
          (BlockRecord.genesis Config.forTesting.params).hash 0] := by
  obtain ⟨hGA, -, -, -, -, -⟩ := testBlocks_hash_ne
  have hlinks : chainFilterHeaders Hash256.zero [Hash256.replicate 0x10, x] =
      [genesisLink, genesisLink.next x] := rfl
  exact hh.serveLatest_filterHeaders firstBlocks_linked
    (fun b hb => by rcases List.mem_pair.mp hb with rfl | rfl; exacts [hG, hA])
    rfl rfl (by decide) (show [Hash256.replicate 0x10, x].length = 2 from rfl)
    (.inl ⟨rfl, rfl⟩) (by rw [List.map_nil, List.nil_append, hlinks]; exact hnc)
    (by simpa using hGA) (fun _ _ _ hg => absurd hg List.not_mem_nil)

theorem serveLatest_siblingBLink (hh : h.Stores Config.forTesting rs
      [FilterHeaderRecord.ofLink siblingALink siblingA.hash 1,
        FilterHeaderRecord.ofLink genesisLink
          (BlockRecord.genesis Config.forTesting.params).hash 0])
    (hB : (BlockRecord.genesis Config.forTesting.params).child siblingB ∈ rs) :
    (h.serveLatest (.filterHeaders [siblingBLink] siblingB.hash)).Stores Config.forTesting rs
      [FilterHeaderRecord.ofLink siblingBLink siblingB.hash 1,
        FilterHeaderRecord.ofLink siblingALink siblingA.hash 1,
        FilterHeaderRecord.ofLink genesisLink
          (BlockRecord.genesis Config.forTesting.params).hash 0] := by
  obtain ⟨-, hGB, -, hAB, -, -⟩ := testBlocks_hash_ne
  have hlinks : chainFilterHeaders genesisLink.hash [Hash256.replicate 0x12] = [siblingBLink] :=
    rfl
  -- the genesis block's record, one below, names the hash the new link starts from
  exact hh.serveLatest_filterHeaders
    (show Linked [(BlockRecord.genesis Config.forTesting.params).child siblingB] from trivial)
    (fun b hb => by rw [List.mem_singleton.mp hb]; exact hB)
    rfl rfl (by decide) (show [Hash256.replicate 0x12].length = 1 from rfl)
    (.inr ⟨_, List.mem_cons_of_mem _ List.mem_cons_self, rfl, rfl⟩)
    (by
      simp only [List.map_cons, List.map_nil, View.ofLink_link, hlinks]
      exact testLinks_not_collide (by simp))
    (List.nodup_singleton _)
    (by simp [FilterHeaderRecord.ofLink, hGB, hAB])

theorem serveLatest_spliceLink (hh : h.Stores Config.forTesting rs
      [FilterHeaderRecord.ofLink siblingBLink siblingB.hash 1,
        FilterHeaderRecord.ofLink siblingALink siblingA.hash 1,
        FilterHeaderRecord.ofLink genesisLink
          (BlockRecord.genesis Config.forTesting.params).hash 0])
    (hC : ((BlockRecord.genesis Config.forTesting.params).child siblingB).child childOfB ∈ rs) :
    (h.serveLatest (.filterHeaders [siblingALink.next (Hash256.replicate 0x13)] childOfB.hash)).Stores
      Config.forTesting rs
      [FilterHeaderRecord.ofLink (siblingALink.next (Hash256.replicate 0x13)) childOfB.hash 2,
        FilterHeaderRecord.ofLink siblingBLink siblingB.hash 1,
        FilterHeaderRecord.ofLink siblingALink siblingA.hash 1,
        FilterHeaderRecord.ofLink genesisLink
          (BlockRecord.genesis Config.forTesting.params).hash 0] := by
  obtain ⟨-, -, hGC, -, hAC, hBC⟩ := testBlocks_hash_ne
  have hlinks : chainFilterHeaders siblingALink.hash [Hash256.replicate 0x13] =
      [siblingALink.next (Hash256.replicate 0x13)] := rfl
  exact hh.serveLatest_filterHeaders
    (show Linked [((BlockRecord.genesis Config.forTesting.params).child siblingB).child childOfB]
      from trivial)
    (fun b hb => by rw [List.mem_singleton.mp hb]; exact hC)
    rfl rfl (by decide) (show [Hash256.replicate 0x13].length = 1 from rfl)
    (.inr ⟨_, List.mem_cons_of_mem _ List.mem_cons_self, rfl, rfl⟩)
    (by
      simp only [List.map_cons, List.map_nil, View.ofLink_link, hlinks]
      exact testLinks_not_collide (by simp))
    (List.nodup_singleton _)
    (by simp [FilterHeaderRecord.ofLink, hGC, hAC, hBC])

end Handler.Stores

/-- The first sibling links to the filter header of the genesis block, the only one below. -/
theorem siblingA_filter_header_links_parent :
    let fh := FilterHeaderRecord.ofLink siblingALink siblingA.hash 1
    let B := (BlockRecord.genesis Config.forTesting.params).child siblingA
    Reachable Config.forTesting siblingARun ∧ fh ∈ siblingARun.node.store.filterHeaders ∧
    B ∈ siblingARun.node.store.headers ∧ B.hash = fh.blockHash ∧ 0 < fh.height ∧
    (∀ g ∈ siblingARun.node.store.filterHeaders, g.hash = fh.prevHeader →
      g.height + 1 = fh.height → g.blockHash = B.prevHash) ∧
    ∃ P ∈ siblingARun.node.store.headers, P.hash = B.prevHash ∧
      ∃ g, siblingARun.node.store.filterHeaderOf P.hash = some g ∧ g.hash = fh.prevHeader := by
  intro fh B
  have hr : Reachable Config.forTesting siblingARun :=
    Reachable.foldl_serveLatest (Reachable.start rfl) _
  have hs : siblingARun.Stores Config.forTesting
      [B, BlockRecord.genesis Config.forTesting.params]
      [fh, FilterHeaderRecord.ofLink genesisLink
        (BlockRecord.genesis Config.forTesting.params).hash 0] := by
    rw [siblingARun, List.foldl_cons, List.foldl_cons, List.foldl_nil]
    exact (Handler.Reads.stores siblingA_reads).serveLatest_firstLinks (List.mem_cons_of_mem _ List.mem_cons_self)
      List.mem_cons_self (testLinks_not_collide (by simp [siblingALink]))
  have hfh : fh ∈ siblingARun.node.store.filterHeaders := by
    rw [hs.filterHeaders]
    exact List.mem_cons_self
  have hB : B ∈ siblingARun.node.store.headers := by
    rw [hs.headers]
    exact List.mem_cons_self
  -- the record at height one is the first sibling's own; the genesis block's is its parent's
  have hsib : ∀ g ∈ siblingARun.node.store.filterHeaders, g.hash = fh.prevHeader →
      g.height + 1 = fh.height → g.blockHash = B.prevHash := by
    rw [hs.filterHeaders]
    intro g hg _ hheight
    rcases List.mem_pair.mp hg with rfl | rfl
    · exact absurd hheight (by decide)
    · exact siblings_prevHash.1.symm
  exact ⟨hr, hfh, hB, rfl, Nat.one_pos, hsib,
    filter_header_links_parent hr hfh hB rfl Nat.one_pos hsib⟩

/-- The link check accepts a filter header that links to the filter header of its block's
parent's sibling: a reachable store holds a filter header whose previous header is not the hash
of the filter header of its block's parent. -/
theorem spliced_filter_header_skips_parent :
    Reachable Config.forTesting splicedRun ∧
    ∃ fh ∈ splicedRun.node.store.filterHeaders, 0 < fh.height ∧
      ∃ B ∈ splicedRun.node.store.headers, B.hash = fh.blockHash ∧
        ∃ P ∈ splicedRun.node.store.headers, P.hash = B.prevHash ∧
          ∃ g ∈ splicedRun.node.store.filterHeaders, g.blockHash = P.hash ∧
            g.hash ≠ fh.prevHeader := by
  have hs : splicedRun.Stores Config.forTesting
      [((BlockRecord.genesis Config.forTesting.params).child siblingB).child childOfB,
        (BlockRecord.genesis Config.forTesting.params).child siblingB,
        (BlockRecord.genesis Config.forTesting.params).child siblingA,
        BlockRecord.genesis Config.forTesting.params]
      [FilterHeaderRecord.ofLink (siblingALink.next (Hash256.replicate 0x13)) childOfB.hash 2,
        FilterHeaderRecord.ofLink siblingBLink siblingB.hash 1,
        FilterHeaderRecord.ofLink siblingALink siblingA.hash 1,
        FilterHeaderRecord.ofLink genesisLink
          (BlockRecord.genesis Config.forTesting.params).hash 0] := by
    have hsplit : splicedRun = [Request.filterHeaders [genesisLink, siblingALink] siblingA.hash,
        .filterHeaders [siblingBLink] siblingB.hash,
        .filterHeaders [siblingALink.next (Hash256.replicate 0x13)] childOfB.hash].foldl
          Handler.serveLatest forkRun := by
      rw [splicedRun, forkRun, ← List.foldl_append]
      rfl
    rw [hsplit, List.foldl_cons, List.foldl_cons, List.foldl_cons, List.foldl_nil]
    exact (((Handler.Reads.stores forkRun_reads).serveLatest_firstLinks (by simp) (by simp)
      (testLinks_not_collide (by simp [siblingALink]))).serveLatest_siblingBLink
      (by simp)).serveLatest_spliceLink List.mem_cons_self
  -- the block's parent is the second sibling, whose record links elsewhere than the new link
  have hlinks : siblingBLink.hash ≠ siblingALink.hash := by
    rw [siblingBLink_hash, siblingALink_hash]
    decide
  rw [hs.filterHeaders, hs.headers]
  exact ⟨hs.reachable, _, List.mem_cons_self, Nat.two_pos, _, List.mem_cons_self, rfl,
    _, List.mem_cons_of_mem _ List.mem_cons_self, rfl,
    _, List.mem_cons_of_mem _ List.mem_cons_self, rfl, hlinks⟩

/-! ## A filter its filter header commits to -/

/-- A one-byte filter for the first sibling, the first sibling's link committing to it, and the
message that carries it. -/
def siblingAFilter : ByteArray := ⟨#[0x01]⟩

def committedLink : FilterHeader := genesisLink.next (filterHash siblingAFilter)

def siblingAMessage : FilterMessage := ⟨siblingA.hash, siblingAFilter, .basic⟩

theorem siblingAMessage_nodup : ([siblingAMessage].map (·.blockHash)).Nodup :=
  List.nodup_singleton _

def siblingAFilterDigest : {n : Nat // filterHash siblingAFilter = Hash256.ofNatBE n} :=
  ⟨0x9c12cfdc04c74584d787ac3d23772132c18524bc7ab28dec4219b8fc5b425f70, by decide +kernel⟩

theorem siblingAFilter_hash : filterHash siblingAFilter =
    Hash256.ofNatBE 0x9c12cfdc04c74584d787ac3d23772132c18524bc7ab28dec4219b8fc5b425f70 :=
  siblingAFilterDigest.2

def committedLinkDigest : {n : Nat // committedLink.hash = Hash256.ofNatBE n} :=
  ⟨0x3726c286b9887b93580cfb9a46dbb4862e56767df047249b4df593487c7691fa, by
    rw [committedLink, FilterHeader.next, siblingAFilter_hash, genesisLink_hash]
    decide +kernel⟩

theorem committedLink_hash : committedLink.hash =
    Hash256.ofNatBE 0x3726c286b9887b93580cfb9a46dbb4862e56767df047249b4df593487c7691fa :=
  committedLinkDigest.2

theorem committedLinks_not_collide : ¬LinksCollide [genesisLink, committedLink] := by
  refine not_linksCollide_of_sub (L := [genesisLink, committedLink]) ?_ ?_ fun _ hl => hl
  · simp only [List.map_cons, List.map_nil, genesisLink_hash, committedLink_hash]
    decide
  · simp only [List.forall_mem_cons, List.not_mem_nil, IsEmpty.forall_iff, implies_true,
      and_true, genesisLink_hash, committedLink_hash]
    decide

theorem committedLinks_chain :
    chainFilterHeaders Hash256.zero [Hash256.replicate 0x10, filterHash siblingAFilter] =
      [genesisLink, committedLink] := rfl

theorem firstBlocks_forkRun : ∀ b ∈ [BlockRecord.genesis Config.forTesting.params,
    (BlockRecord.genesis Config.forTesting.params).child siblingA], b ∈ forkRun.node.store.headers := by
  intro b hb
  rw [forkRun_headers]
  rcases List.mem_pair.mp hb with rfl | rfl <;> simp

/-- Filters for distinct blocks, each committed to by its block's filter header, are accepted
through the latest view: the block and filter-header records stay, and each block has a filter,
the one sent or one it had. -/
theorem Handler.Stores.serveLatest_filters {config : Config} {h : Handler}
    {rs : List BlockRecord} {fs : List FilterHeaderRecord} (hh : h.Stores config rs fs)
    {ms : List FilterMessage} (hnd : (ms.map (·.blockHash)).Nodup)
    (hfh : ∀ m ∈ ms, ∃ g, h.node.store.filterHeaderOf m.blockHash = some g ∧
      g.filterHash = filterHash m.bytes) :
    (h.serveLatest (.filters ms)).Stores config rs fs ∧
      ∀ m ∈ ms, ∃ f, (h.serveLatest (.filters ms)).node.store.filterOf m.blockHash = some f ∧
        (f.bytes = m.bytes ∨ f ∈ h.node.store.filters) := by
  obtain ⟨v, vs, hviews, hcp⟩ := hh.latest
  obtain ⟨n', hrun, hpost⟩ :=
    NodeStep.processFilters_accepts (v := v) hh.reachable.valid.filters hnd hfh
  have hstep : h.serveLatest (.filters ms) = ⟨n', v :: h.views⟩ := by
    obtain ⟨n, views⟩ := h
    dsimp only at hviews hrun ⊢
    subst hviews
    simp only [Handler.serveLatest, Handler.serve, Request.run, hrun]
  -- writing filters keeps the block records and the filter headers
  have hframe : n'.store.headers = h.node.store.headers ∧
      n'.store.filterHeaders = h.node.store.filterHeaders := by
    rcases (NodeStep.processFilters_ok hrun).2 with rfl | ⟨_, -, rfl⟩
    · exact ⟨rfl, rfl⟩
    · exact ⟨(Store.foldl_putFilter_frame _ _).1, (Store.foldl_putFilter_frame _ _).2.1⟩
  refine ⟨⟨hh.reachable.serveLatest _, ⟨v, h.views, by rw [hstep], hcp⟩, ?_, ?_⟩, ?_⟩
  · rw [hstep]
    exact hframe.1.trans hh.headers
  · rw [hstep]
    exact hframe.2.trans hh.filterHeaders
  · rw [hstep]
    exact hpost

/-- The fork run, then the filter headers of the genesis block and of the first sibling, the
latter committing to the first sibling's filter. -/
def committedRun : Handler :=
  forkRun.serveLatest (.filterHeaders [genesisLink, committedLink] siblingA.hash)

def filterRun : Handler := committedRun.serveLatest (.filters [siblingAMessage])

theorem committedRun_stores : committedRun.Stores Config.forTesting
      [((BlockRecord.genesis Config.forTesting.params).child siblingB).child childOfB,
        (BlockRecord.genesis Config.forTesting.params).child siblingB,
        (BlockRecord.genesis Config.forTesting.params).child siblingA,
        BlockRecord.genesis Config.forTesting.params]
      [FilterHeaderRecord.ofLink committedLink siblingA.hash 1,
        FilterHeaderRecord.ofLink genesisLink
          (BlockRecord.genesis Config.forTesting.params).hash 0] :=
  (Handler.Reads.stores forkRun_reads).serveLatest_firstLinks (by simp) (by simp) committedLinks_not_collide

theorem committedRun_commits : ∀ m ∈ [siblingAMessage], ∃ g,
    committedRun.node.store.filterHeaderOf m.blockHash = some g ∧
      g.filterHash = filterHash m.bytes := by
  intro m hm
  rw [List.mem_singleton.mp hm]
  refine ⟨FilterHeaderRecord.ofLink committedLink siblingA.hash 1, ?_, rfl⟩
  simp [Store.filterHeaderOf, Handler.Stores.filterHeaders committedRun_stores, siblingAMessage,
    FilterHeaderRecord.ofLink]

/-- The fork run, then the committed filter headers, then the filter: two filter headers and a
filter for the first sibling are stored. -/
theorem filterRun_filter_chain :
    Reachable Config.forTesting filterRun ∧ filterRun.node.store.filterHeaders.length = 2 ∧
    (∃ x ∈ filterRun.node.store.filters, x.blockHash = siblingA.hash) ∧
    (∀ f ∈ filterRun.node.store.filterHeaders, filterRun.node.store.filterHeaderOf f.blockHash = some f ∧
      ∃ r ∈ filterRun.node.store.headers, r.hash = f.blockHash ∧ r.height = f.height) ∧
    (∀ f ∈ filterRun.node.store.filterHeaders, f.hash = f.link.hash) ∧
    (∀ f ∈ filterRun.node.store.filterHeaders, f.height = 0 → f.prevHeader = Hash256.zero) ∧
    (filterRun.node.store.FilterHeaderCollision ∨ ∀ f ∈ filterRun.node.store.filterHeaders,
      0 < f.height → ∃ g, filterRun.node.store.findFilterHeader f.prevHeader = some g ∧
        g ∈ filterRun.node.store.filterHeaders ∧ g.height + 1 = f.height) ∧
    (∀ (req : Request), ∀ u ∈ filterRun.views, ∀ f ∈ (filterRun.serve req u).node.store.filterHeaders,
      f ∉ filterRun.node.store.filterHeaders → ∀ e, u.checkpointOf f.blockHash = some e → f.hash = e) ∧
    ∀ x ∈ filterRun.node.store.filters, filterRun.node.store.filterOf x.blockHash = some x ∧
      x.hash = filterHash x.bytes ∧ ∃ g ∈ filterRun.node.store.filterHeaders,
        g.blockHash = x.blockHash ∧ g.filterHash = x.hash ∧ g.height = x.height := by
  rw [show filterRun = committedRun.serveLatest (.filters [siblingAMessage]) from rfl]
  obtain ⟨hs, hf⟩ := Handler.Stores.serveLatest_filters committedRun_stores
    siblingAMessage_nodup committedRun_commits
  have hr := hs.reachable
  -- the filter found for the first sibling is a stored one, under that block
  obtain ⟨x, hx, -⟩ := hf siblingAMessage List.mem_cons_self
  have hxm := List.mem_of_find?_eq_some hx
  have hxb : x.blockHash = siblingA.hash := by simpa [siblingAMessage] using List.find?_some hx
  exact ⟨hr, by rw [hs.filterHeaders]; rfl, ⟨x, hxm, hxb⟩, reachable_filter_chain hr⟩

/-- The fork run accepts the committed filter headers for the genesis block and the first sibling,
and the committed run accepts the first sibling's filter. -/
theorem committedRun_filter_data_accepted :
    (∃ v ∈ forkRun.views, ∃ n', NodeStep.processFilterHeaders v [genesisLink, committedLink]
        siblingA.hash forkRun.node = .ok v n' ∧
      ∃ e, n'.store.filterHeaderOf siblingA.hash = some e ∧ e.hash = committedLink.hash) ∧
    ∃ v ∈ committedRun.views, ∃ n',
      NodeStep.processFilters v [siblingAMessage] committedRun.node = .ok v n' ∧
      ∃ f, n'.store.filterOf siblingA.hash = some f ∧
        (f.bytes = siblingAFilter ∨ f ∈ committedRun.node.store.filters) := by
  have hhs := Handler.Reads.stores forkRun_reads
  obtain ⟨v, vs, hviews, hcp⟩ := hhs.latest
  have hvm : v ∈ forkRun.views := hviews ▸ List.mem_cons_self
  have hnone : ∀ b, forkRun.node.store.filterHeaderOf b = none := fun b => by
    simp [Store.filterHeaderOf, hhs.filterHeaders]
  obtain ⟨n', hrun, hpost⟩ := (valid_filter_data_accepted hhs.reachable hvm).1
    [BlockRecord.genesis Config.forTesting.params,
      (BlockRecord.genesis Config.forTesting.params).child siblingA] _ _ Hash256.zero
    [Hash256.replicate 0x10, filterHash siblingAFilter] firstBlocks_linked
    firstBlocks_forkRun
    rfl rfl (by decide) rfl (.inl ⟨rfl, rfl⟩) (fun p _ e he => by rw [hnone] at he; cases he)
    (fun p _ e he => by simp [View.checkpointOf, hcp] at he)
    (by rw [hhs.filterHeaders, List.map_nil, List.nil_append, committedLinks_chain]
        exact committedLinks_not_collide)
  have hcs := committedRun_stores
  obtain ⟨v', vs', hviews', -⟩ := hcs.latest
  have hvm' : v' ∈ committedRun.views := hviews' ▸ List.mem_cons_self
  obtain ⟨n'', hrun', hpost'⟩ := (valid_filter_data_accepted hcs.reachable hvm').2
    [siblingAMessage] siblingAMessage_nodup committedRun_commits
  refine ⟨⟨v, hvm, n', by rw [← committedLinks_chain]; exact hrun, ?_⟩, ⟨v', hvm', n'', hrun', ?_⟩⟩
  · exact hpost (committedLink, (BlockRecord.genesis Config.forTesting.params).child siblingA)
      (by rw [committedLinks_chain]; simp)
  · exact hpost' siblingAMessage List.mem_cons_self

/-- Served again after they were accepted, the committed filter headers, or the first sibling's
alone, and the first sibling's filter change nothing. -/
theorem committedRun_filter_data_served_again :
    (∃ v ∈ forkRun.views, ∃ n', NodeStep.processFilterHeaders v [genesisLink, committedLink]
        siblingA.hash forkRun.node = .ok v n' ∧
      NodeStep.processFilterHeaders v [committedLink] siblingA.hash n' = .ok v n') ∧
    ∃ v ∈ committedRun.views, ∃ n',
      NodeStep.processFilters v [siblingAMessage] committedRun.node = .ok v n' ∧
      NodeStep.processFilters v [siblingAMessage] n' = .ok v n' := by
  have hhs := Handler.Reads.stores forkRun_reads
  obtain ⟨v, vs, hviews, hcp⟩ := hhs.latest
  have hvm : v ∈ forkRun.views := hviews ▸ List.mem_cons_self
  obtain ⟨n', hrun, -⟩ := NodeStep.processFilterHeaders_stores_run hhs.reachable.valid hvm
    hhs.reachable.indexCovers firstBlocks_linked
    firstBlocks_forkRun
    rfl rfl (by decide) (show [Hash256.replicate 0x10, filterHash siblingAFilter].length = 2 from rfl)
    (.inl ⟨rfl, rfl⟩)
    (by rw [hhs.filterHeaders, List.map_nil, List.nil_append, committedLinks_chain]
        exact committedLinks_not_collide)
    (fun b _ => by simp [Store.filterHeaderOf, hhs.filterHeaders]) hcp
  rw [committedLinks_chain] at hrun
  have hcs := committedRun_stores
  obtain ⟨v', vs', hviews', -⟩ := hcs.latest
  have hvm' : v' ∈ committedRun.views := hviews' ▸ List.mem_cons_self
  obtain ⟨n'', hrun', -⟩ := NodeStep.processFilters_accepts (v := v')
    hcs.reachable.valid.filters siblingAMessage_nodup committedRun_commits
  refine ⟨⟨v, hvm, n', hrun, ?_⟩, ⟨v', hvm', n'', hrun', ?_⟩⟩
  · exact (filter_data_resubmission_is_noop hhs.reachable hvm forkRun_heights).1 _ _ _ _ _ hrun
      (List.suffix_cons _ _)
  · exact (filter_data_resubmission_is_noop hcs.reachable hvm'
      (hcs.headers ▸ forkRun_headers ▸ forkRun_heights)).2 _ _ _ _ hrun'
      (List.Sublist.refl _)

/-! ## Writes of the test records -/

/-- The genesis block and the first sibling created; the first sibling written again with other
work, beside the second sibling; the filter headers of the first two and the first sibling's
filter created; the genesis block created again, which is refused as it is stored; a flag set. -/
def testWrites : List StoreWrite :=
  [.createAll [BlockRecord.genesis Config.forTesting.params,
      (BlockRecord.genesis Config.forTesting.params).child siblingA],
    .upsertAll [((BlockRecord.genesis Config.forTesting.params).child siblingA).withWork 9,
      (BlockRecord.genesis Config.forTesting.params).child siblingB],
    .createFilterHeaders [FilterHeaderRecord.ofLink genesisLink
        (BlockRecord.genesis Config.forTesting.params).hash 0,
      FilterHeaderRecord.ofLink committedLink siblingA.hash 1],
    .createFilters [FilterRecord.ofBytes siblingAFilter siblingA.hash 1],
    .createAll [BlockRecord.genesis Config.forTesting.params],
    .setSyncing true]

/-- The test writes keep every key at one height, so every index agrees with its records. -/
theorem testWrites_indexes_agree :
    (∀ k (hk : k < testWrites.length),
      testWrites[k].KeepsKeys (Store.empty.runWrites (testWrites.take k))) ∧
    let s := Store.empty.runWrites testWrites
    s.IndexAgrees ∧
    (∀ height r, r ∈ s.atHeight height ↔ r ∈ s.headers ∧ r.height = height) ∧
    (∀ height, (s.atHeight height).Nodup) ∧
    (∀ lo hi r, r ∈ s.betweenHeights lo hi ↔ r ∈ s.headers ∧ lo ≤ r.height ∧ r.height ≤ hi) ∧
    (∀ lo hi, (s.betweenHeights lo hi).Nodup) ∧
    (∀ lo hi f, f ∈ s.filtersBetweenHeights lo hi ↔ f ∈ s.filters ∧ lo ≤ f.height ∧ f.height ≤ hi) ∧
    (∀ lo hi, (s.filtersBetweenHeights lo hi).Nodup) ∧
    ∀ k (hk : k < testWrites.length) m,
      testWrites[k].apply (Store.empty.runWrites (testWrites.take k)) = .error m →
      Store.empty.runWrites (testWrites.take (k + 1)) = Store.empty.runWrites (testWrites.take k) := by
  obtain ⟨hGA, hGB, -, hAB, -, -⟩ := testBlocks_hash_ne
  have hG0 : (BlockRecord.genesis Config.forTesting.params).height = 0 := rfl
  -- every record offered is one of four, whose heights differ only where their hashes do
  have hsub : ∀ w ∈ testWrites, ∀ r ∈ w.offered,
      r ∈ [BlockRecord.genesis Config.forTesting.params,
        (BlockRecord.genesis Config.forTesting.params).child siblingA,
        ((BlockRecord.genesis Config.forTesting.params).child siblingA).withWork 9,
        (BlockRecord.genesis Config.forTesting.params).child siblingB] := by
    simp [testWrites, StoreWrite.offered]
  have hfour : ∀ r ∈ [BlockRecord.genesis Config.forTesting.params,
        (BlockRecord.genesis Config.forTesting.params).child siblingA,
        ((BlockRecord.genesis Config.forTesting.params).child siblingA).withWork 9,
        (BlockRecord.genesis Config.forTesting.params).child siblingB],
      ∀ y ∈ [BlockRecord.genesis Config.forTesting.params,
        (BlockRecord.genesis Config.forTesting.params).child siblingA,
        ((BlockRecord.genesis Config.forTesting.params).child siblingA).withWork 9,
        (BlockRecord.genesis Config.forTesting.params).child siblingB],
      y.hash = r.hash → y.height = r.height := by
    simp [hG0, hGA, hGB, hAB, Ne.symm hGA, Ne.symm hGB, Ne.symm hAB]
  have hf : ∀ w ∈ testWrites, w.offered = [] → w.KeepsKeys Store.empty := by
    simp [testWrites, StoreWrite.offered, StoreWrite.KeepsKeys, FilterHeaderRecord.ofLink,
      FilterRecord.ofBytes, hGA]
  have hk := Store.keepsKeys_of_offered testWrites
    (fun w hw w' hw' r hr y hy => hfour r (hsub w hw r hr) y (hsub w' hw' y hy)) hf
  exact ⟨hk, store_indexes_agree testWrites hk⟩

end BitcoinLight
