import BitcoinLight.Proofs.HeaderStore
import BitcoinLight.Proofs.FilterStore

set_option autoImplicit false

/-!
# What every reachable handler state holds

`Valid` gathers what holds in every state a handler reaches: the header store and the filter
store invariants; one session, whose views keep the settings and a generation no later than the
session's; candidate chains that are stored chains; and, for a view of the latest generation,
a candidate ending at every chain tip of the store. It holds once the store is opened and every
served request keeps it (`Valid.serve`), whether served through the latest view or a stale one:
a stale view reloads its chains from the store before it writes.

Serving a request also never drops a block record, and every filter header it stores matches the
checkpoints of the view it was served through.
-/

namespace BitcoinLight

theorem Config.cacheDepth_pos {config : Config} (h : config.validate = .ok ()) :
    0 < config.cacheDepth := by
  unfold Config.validate at h
  by_cases h1 : config.chainWorkBatchSize = 0
  · simp [h1] at h
  by_cases h2 : config.filterHeaderBatchSize = 0 ∨ config.filterBatchSize = 0
  · simp [h1, h2] at h
  by_cases h3 : config.cacheDepth < Config.minCacheDepth
  · simp [h1, h2, h3] at h
  have : Config.minCacheDepth = 2016 := rfl
  omega

theorem NodeStep.openStore_validate {config : Config} {v : View} {n : Node}
    (h : NodeStep.openStore config {} = .ok v n) : config.validate = .ok () := by
  unfold NodeStep.openStore at h
  simp only [NodeStep.store, bind, EStateM.bind, get, getThe, MonadStateOf.get, EStateM.get,
    NodeStep.ofExcept_apply] at h
  rcases hv : config.validate with e | ⟨⟩
  · simp only [hv] at h
    cases h
  · rfl

theorem Store.chainTips_congr {s s' : Store} (h : s'.headers = s.headers) :
    s'.chainTips = s.chainTips := by
  unfold Store.chainTips
  rw [h]

theorem HeaderStore.congr {p : Params} {s s' : Store} (hs : HeaderStore p s)
    (h : s'.headers = s.headers) : HeaderStore p s' :=
  ⟨h ▸ hs.nodup, h ▸ hs.genesis_mem, h ▸ hs.eq_genesis, h ▸ hs.parent⟩

/-- What holds in every state a handler opened with `config` reaches. -/
structure Valid (config : Config) (h : Handler) : Prop where
  depth_pos : 0 < config.cacheDepth
  headers : HeaderStore config.params h.node.store
  filters : FilterStore h.node.store
  one_session : h.node.generations.length = 1
  views : ∀ v ∈ h.views,
    v.config = config ∧ v.session = 0 ∧ v.generation ≤ h.node.generationOf 0
  chains : ∀ v ∈ h.views, ∀ c ∈ v.chains, h.node.store.HoldsChain c
  tips : ∀ v ∈ h.views, v.generation = h.node.generationOf v.session →
    ∀ t ∈ h.node.store.chainTips, ∃ c ∈ v.chains, c.tip? = some t

namespace Valid

variable {config : Config} {n n' : Node} {vs : List View} {v v' : View}

theorem opened (h : NodeStep.openStore config {} = .ok v n) : Valid config ⟨n, [v]⟩ := by
  obtain ⟨rfl, rfl⟩ := NodeStep.openStore_empty h
  refine ⟨Config.cacheDepth_pos (NodeStep.openStore_validate h), HeaderStore.genesis _,
    FilterStore.of_empty rfl rfl rfl, rfl, ?_, ?_, ?_⟩
  · intro w hw
    rw [List.mem_singleton.mp hw]
    exact ⟨rfl, rfl, Nat.zero_le _⟩
  · intro w hw c hc
    rw [List.mem_singleton.mp hw] at hc
    exact Store.holdsChain_of_mem_blockchains hc
  · intro w hw _ t ht
    rw [List.mem_singleton.mp hw]
    exact Store.exists_blockchains_tip _ ht

theorem frame (hv : Valid config ⟨n, vs⟩) (hh : n'.store.headers = n.store.headers)
    (hg : n'.generations = n.generations) (hf : FilterStore n'.store) {w : View}
    (hw : ∃ v ∈ vs, w.config = v.config ∧ w.chains = v.chains ∧ w.session = v.session ∧
      w.generation = v.generation) : Valid config ⟨n', w :: vs⟩ := by
  have hgen : ∀ i, n'.generationOf i = n.generationOf i := fun i => by
    simp only [Node.generationOf, hg]
  obtain ⟨v, hv', hc, hch, hs, hgn⟩ := hw
  refine ⟨hv.depth_pos, hv.headers.congr hh, hf, hg ▸ hv.one_session, ?_, ?_, ?_⟩
  · intro u hu
    rw [hgen]
    rcases List.mem_cons.mp hu with rfl | hu
    · rw [hc, hs, hgn]
      exact hv.views v hv'
    · exact hv.views u hu
  · intro u hu c hc'
    refine (Store.HoldsChain.mono · fun r hr => hh ▸ hr) ?_
    rcases List.mem_cons.mp hu with rfl | hu
    · exact hv.chains v hv' c (hch ▸ hc')
    · exact hv.chains u hu c hc'
  · intro u hu hfresh t ht
    rw [Store.chainTips_congr hh] at ht
    rw [hgen] at hfresh
    rcases List.mem_cons.mp hu with rfl | hu
    · rw [hch]
      exact hv.tips v hv' (by rw [← hgn, hfresh, hs]) t ht
    · exact hv.tips u hu hfresh t ht

theorem chainsIn_holds (hv : Valid config ⟨n, vs⟩) (hvm : v ∈ vs) :
    ∀ c ∈ v.chainsIn n, n.store.HoldsChain c := by
  unfold View.chainsIn
  split
  · exact fun c hc => Store.holdsChain_of_mem_blockchains hc
  · exact hv.chains v hvm

theorem set_next_generation (hv : Valid config ⟨n, vs⟩) (hvm : v ∈ vs) :
    n.generations.set v.session (n.generations.getD v.session 0 + 1) =
      [n.generations.getD 0 0 + 1] := by
  obtain ⟨g0, hg0⟩ : ∃ g0, n.generations = [g0] := List.length_eq_one_iff.mp hv.one_session
  simp [(hv.views v hvm).2.1, hg0]

theorem chainsIn_covers (hv : Valid config ⟨n, vs⟩) (hvm : v ∈ vs) :
    ∀ t ∈ n.store.chainTips, ∃ c ∈ v.chainsIn n, c.tip? = some t := by
  unfold View.chainsIn
  split
  · exact fun t ht => Store.exists_blockchains_tip _ ht
  · rename_i hstale
    simp only [View.staleIn, bne_iff_ne, ne_eq, Decidable.not_not] at hstale
    exact hv.tips v hvm hstale.symm

end Valid

/-- What serving one request through `v` does, from a valid state: the state stays valid, no
block record is dropped, and every filter header stored matches the checkpoints of `v`. -/
structure Served (config : Config) (h h' : Handler) (v : View) : Prop where
  valid : Valid config h'
  headers_mono : ∀ r ∈ h.node.store.headers, r ∈ h'.node.store.headers
  checkpoints : ∀ f ∈ h'.node.store.filterHeaders, f ∉ h.node.store.filterHeaders →
    ∀ e, v.checkpointOf f.blockHash = some e → f.hash = e

namespace Valid

variable {config : Config} {n n' : Node} {vs : List View} {v v' : View}

theorem served_frame (hv : Valid config ⟨n, vs⟩) (hvm : v ∈ vs)
    (hh : n'.store.headers = n.store.headers) (hg : n'.generations = n.generations)
    (hfh : n'.store.filterHeaders = n.store.filterHeaders) (hf : FilterStore n'.store)
    (hw : v'.config = v.config ∧ v'.chains = v.chains ∧ v'.session = v.session ∧
      v'.generation = v.generation) : Served config ⟨n, vs⟩ ⟨n', v' :: vs⟩ v :=
  ⟨hv.frame hh hg hf ⟨v, hvm, hw⟩, fun _ hr => hh ▸ hr, fun _ hf' hn => absurd (hfh ▸ hf') hn⟩

theorem processHeaders (hv : Valid config ⟨n, vs⟩) (hvm : v ∈ vs) {hs : List Header}
    (h : NodeStep.processHeaders v hs n = .ok v' n') : Served config ⟨n, vs⟩ ⟨n', v' :: vs⟩ v := by
  rcases NodeStep.processHeaders_ok h with ⟨-, rfl, rfl⟩ | ⟨s', hc, rfl, rfl⟩
  · exact hv.served_frame hvm rfl rfl rfl hv.filters ⟨rfl, rfl, rfl, rfl⟩
  obtain ⟨hconf, hsess, -⟩ := hv.views v hvm
  subst hconf
  have hcs := hv.chainsIn_holds hvm
  set fresh := View.freshHeaders n.store (v.chainsIn n) hs
  set start := View.withForkParents n.store v.config.cacheDepth (fresh.map (·.hash))
    (v.chainsIn n) fresh
  set us := connectHeaders fresh start v.params
  have hvalid : UpdatesValid v.params n.store.headers fresh us :=
    updatesValid_batch hv.headers hcs hs
  obtain ⟨hmem, hndf⟩ := createAll_connected hvalid hc
  have hnd' := hndf hv.headers.nodup
  have hgrow : ∀ r ∈ n.store.headers, r ∈ s'.headers := fun r hr => (hmem r).mpr (.inl hr)
  obtain ⟨rfl, -⟩ := Store.createAll_ok hc
  obtain ⟨hf1, hf2, hf3⟩ := Store.foldl_putHeader_filters
    ((View.connectedRecords us).mergeSort fun a b => decide (a.height ≤ b.height)) n.store
  have hset := hv.set_next_generation hvm
  refine ⟨⟨hv.depth_pos, hv.headers.write hvalid hmem hnd', hv.filters.frame hf1 hf2 hf3 hgrow,
    by simp only [Node.generationOf, hset, List.length_singleton], ?_, ?_, ?_⟩, hgrow,
    fun f hf hn => absurd (hf1 ▸ hf) hn⟩
  · -- the new view is at the session's next generation, and every older view is below it
    intro u hu
    rcases List.mem_cons.mp hu with rfl | hu
    · refine ⟨rfl, hsess, ?_⟩
      simp only [Node.generationOf, hset, List.getD_cons_zero]
      simp [hsess]
    · obtain ⟨hc, hs', hg'⟩ := hv.views u hu
      simp only [Node.generationOf, hset, List.getD_cons_zero] at hg' ⊢
      exact ⟨hc, hs', by omega⟩
  · intro u hu c hc'
    rcases List.mem_cons.mp hu with rfl | hu
    · exact holdsChain_pruneChains hvalid hmem c hc'
    · exact (hv.chains u hu c hc').mono hgrow
  · intro u hu hfresh t ht
    rcases List.mem_cons.mp hu with rfl | hu
    · -- an old tip still a tip was the tip of a chain the write started from
      refine pruneChains_covers hv.depth_pos hvalid hmem hnd'
        (connectHeaders_tipsOpen fresh start) (fun t ht hts => ?_) t ht
      have htip : t ∈ n.store.chainTips := Store.mem_chainTips.mpr
        ⟨hts, fun x hx => (Store.mem_chainTips.mp ht).2 x (hgrow x hx)⟩
      obtain ⟨c, hc, hct⟩ := hv.chainsIn_covers hvm t htip
      exact ⟨c, View.subset_withForkParents hc, hct⟩
    · obtain ⟨-, hs', hg'⟩ := hv.views u hu
      simp only [Node.generationOf, hs', hset, List.getD_cons_zero] at hg' hfresh
      omega

theorem processFilterHeaders (hv : Valid config ⟨n, vs⟩) (hvm : v ∈ vs) {links : List FilterHeader}
    {stop : Hash256} (h : NodeStep.processFilterHeaders v links stop n = .ok v' n') :
    Served config ⟨n, vs⟩ ⟨n', v' :: vs⟩ v := by
  obtain ⟨rfl, rfl | ⟨fresh, hfr, hcp, rfl⟩⟩ :=
    NodeStep.processFilterHeaders_ok (hv.chains v hvm) hv.headers.nodup h
  · exact hv.served_frame hvm rfl rfl rfl hv.filters ⟨rfl, rfl, rfl, rfl⟩
  obtain ⟨hh, -, -⟩ := Store.foldl_putFilterHeader_frame fresh n.store
  refine ⟨?_, fun r hr => hh ▸ hr, fun f hf hn => ?_⟩
  · exact hv.frame hh (by rfl) (hv.filters.putFilterHeaders hfr) ⟨v', hvm, rfl, rfl, rfl, rfl⟩
  · exact View.verifyCheckpoints_ok hcp f (((hfr.mem_foldl f).mp hf).resolve_left hn)

theorem processFilters (hv : Valid config ⟨n, vs⟩) (hvm : v ∈ vs) {ms : List FilterMessage}
    (h : NodeStep.processFilters v ms n = .ok v' n') : Served config ⟨n, vs⟩ ⟨n', v' :: vs⟩ v := by
  obtain ⟨rfl, rfl | ⟨fs, hfs, rfl⟩⟩ := NodeStep.processFilters_ok h
  · exact hv.served_frame hvm rfl rfl rfl hv.filters ⟨rfl, rfl, rfl, rfl⟩
  obtain ⟨hh, hfh, hhashes⟩ := Store.foldl_putFilter_frame fs n.store
  exact hv.served_frame hvm hh (by rfl) hfh (hv.filters.putFilters hfs) ⟨rfl, rfl, rfl, rfl⟩

theorem serve {h : Handler} (hv : Valid config h) (hvm : v ∈ h.views) (req : Request) :
    Served config h (h.serve req v) v := by
  obtain ⟨n, vs⟩ := h
  rcases Handler.serve_cases ⟨n, vs⟩ req v hv.headers.lowestNoWorkHeight_eq_none with
    ⟨v', n', hrun, hserve⟩ | hserve
  swap
  · rw [hserve]
    exact ⟨hv, fun _ hr => hr, fun _ hf hn => absurd hf hn⟩
  rw [hserve]
  cases req with
  | headers hs => exact hv.processHeaders hvm hrun
  | filterHeaders links stop => exact hv.processFilterHeaders hvm hrun
  | filters ms => exact hv.processFilters hvm hrun
  | checkpoints cps b =>
    obtain ⟨rfl, cp, rfl⟩ := NodeStep.processCheckpoints_ok hrun
    exact hv.served_frame hvm (by rfl) (by rfl) (by rfl)
      (hv.filters.frame (by rfl) (by rfl) (by rfl) fun _ hr => hr) ⟨rfl, rfl, rfl, rfl⟩
  | recalculateWork cancelled =>
    rw [Request.run, NodeStep.recalculateChainWork_of_none hv.headers.lowestNoWorkHeight_eq_none]
      at hrun
    cases hrun
    exact hv.served_frame hvm (by rfl) (by rfl) (by rfl)
      (hv.filters.frame (by rfl) (by rfl) (by rfl) fun _ hr => hr) ⟨rfl, rfl, rfl, rfl⟩
  | syncing value =>
    rw [Request.run, NodeStep.setSyncing_apply] at hrun
    cases hrun
    exact hv.served_frame hvm (by rfl) (by rfl) (by rfl)
      (hv.filters.frame (by rfl) (by rfl) (by rfl) fun _ hr => hr) ⟨rfl, rfl, rfl, rfl⟩
  | ibd value =>
    rw [Request.run, NodeStep.setIbd_apply] at hrun
    cases hrun
    exact hv.served_frame hvm (by rfl) (by rfl) (by rfl)
      (hv.filters.frame (by rfl) (by rfl) (by rfl) fun _ hr => hr) ⟨rfl, rfl, rfl, rfl⟩

end Valid

theorem Reachable.valid {config : Config} {h : Handler} (hr : Reachable config h) : Valid config h := by
  induction hr with
  | opened hopen => exact Valid.opened hopen
  | serve req hr hvm ih => exact (ih.serve hvm req).valid

/-- In every reachable state the block records form a tree rooted at the genesis record: each is
found by its hash, each above height 0 extends a stored parent one lower by its own proof,
each meets its proof of work and, where difficulty only changes at retargets, carries its
parent's bits at each 32-bit height that is not one; and every view's candidates are linked
chains of stored records. -/
theorem reachable_block_records_form_tree {config : Config} {h : Handler} (hr : Reachable config h) :
    (BlockRecord.genesis config.params ∈ h.node.store.headers ∧
      ∀ r ∈ h.node.store.headers, r.height = 0 → r = BlockRecord.genesis config.params) ∧
    (∀ r ∈ h.node.store.headers,
      h.node.store.findByHash r.hash = some r ∧ r.hash = r.header.hash) ∧
    (∀ r ∈ h.node.store.headers, 0 < r.height → ∃ q ∈ h.node.store.headers,
      q.hash = r.prevHash ∧ q.height + 1 = r.height ∧
        r.work = Work.addWork q.work (Work.blockProof r.bits)) ∧
    (∀ r ∈ h.node.store.headers, checkProofOfWork r.header config.params = .ok true ∧
      (config.params.allowMinDifficulty = false → r.height < 2 ^ 32 →
        r.height % config.params.interval ≠ 0 →
        ∃ q ∈ h.node.store.headers, q.hash = r.prevHash ∧ r.bits = q.bits)) ∧
    ∀ v ∈ h.views, ∀ c ∈ v.chains, Linked c.records ∧ ∀ r ∈ c.records, r ∈ h.node.store.headers := by
  have hv := hr.valid
  have hs := hv.headers
  refine ⟨⟨hs.genesis_mem, hs.eq_genesis⟩,
    fun r hr' => ⟨Store.findByHash_of_mem hs.nodup hr', r.hash_eq⟩, fun r hr' h0 => ?_,
    fun r hr' => ⟨hs.pow r hr', fun hmin h32 hi => ?_⟩, hv.chains⟩
  · obtain ⟨q, hq, ha⟩ := hs.parent r hr' h0
    exact ⟨q, hq, ha.prev_eq.symm, ha.height_eq.symm, ha.work_eq⟩
  · -- height 0 is a retarget height, so the record has a parent
    have h0 : 0 < r.height := Nat.pos_of_ne_zero fun h0 => hi (by rw [h0, Nat.zero_mod])
    obtain ⟨q, hq, ha⟩ := hs.parent r hr' h0
    exact ⟨q, hq, ha.prev_eq.symm, ha.bits_eq hmin (by rwa [Nat.mod_eq_of_lt h32])⟩

end BitcoinLight
