import BitcoinLight.Proofs.PartialBatch
import BitcoinLight.Proofs.CommonAncestor

set_option autoImplicit false

/-!
# Header runs on the test handler

Runs of header requests on the handler opened for tests, followed one request at a time. A batch
of one new header that the candidates connect as one record stores it and leaves the pruned
candidates in the latest view (`Handler.Reads.serveLatest_header`). The hashes the runs compare
are the values computed once beside the test blocks, so no step computes a hash again.

The runs give two siblings on the genesis block and a block on the second (`forkRun`), so the
store holds a fork and the latest view two candidates; the invariants of the header store, the
candidate updates and the look-ups are read off that state.
-/

namespace BitcoinLight

@[simp] theorem BlockRecord.child_hash (r : BlockRecord) (header : Header) :
    (r.child header).hash = header.hash := rfl

/-! ## One new header -/

namespace View

variable {s : Store} {cs : List Chain} {x : Header}

theorem freshHeaders_singleton (hc : ∀ c ∈ cs, c.contains x.hash = false)
    (hst : ∀ r ∈ s.headers, r.hash ≠ x.hash) : freshHeaders s cs [x] = [x] := by
  have hnone : s.findByHash x.hash = none := by
    simp only [Store.findByHash, List.find?_eq_none, beq_iff_eq]
    exact hst
  have hany : cs.any (·.contains x.hash) = false := List.any_eq_false.mpr fun c hc' => by
    simp [hc c hc']
  have hdist : distinctByHash [x] = [(x.hash, x)] := rfl
  unfold freshHeaders
  simp [hdist, Store.findByHashes, hnone, hany]

theorem pruneChains_singleton {d : Nat} {c : Chain} {t : BlockRecord} (ht : c.tip? = some t) :
    pruneChains d [c] = [c.trim d] := by
  simp [pruneChains, keepChain, ht]

theorem keepChain_keeps {d : Nat} {acc : List Hash256 × List Chain} {c : Chain} {i : Nat}
    {t : BlockRecord} (ht : c.tip? = some t) (hnew : t.hash ∉ acc.1)
    (hout : ∀ o j, (o, j) ∈ cs.zipIdx → j ≠ i → o.contains t.hash = false) :
    keepChain d cs acc (c, i) = (acc.1 ++ [t.hash], acc.2 ++ [c.trim d]) := by
  unfold keepChain
  simp only [ht]
  rw [if_neg]
  intro hcond
  rcases Bool.or_eq_true_iff.mp hcond with hany | hin
  · obtain ⟨⟨o, j⟩, hoj, hp⟩ := List.any_eq_true.mp hany
    simp only [Bool.and_eq_true, bne_iff_ne, ne_eq] at hp
    rw [hout o j hoj hp.1.1] at hp
    exact Bool.false_ne_true hp.2
  · exact hnew (List.contains_iff_mem.mp hin)

theorem pruneChains_pair {d : Nat} {c e : Chain} {t u : BlockRecord}
    (hc : c.tip? = some t) (he : e.tip? = some u) (hne : t.hash ≠ u.hash)
    (hce : c.contains u.hash = false) (hec : e.contains t.hash = false) :
    pruneChains d [c, e] = [c.trim d, e.trim d] := by
  have hzip : [c, e].zipIdx = [(c, 0), (e, 1)] := rfl
  rw [pruneChains, hzip, List.foldl_cons, List.foldl_cons, List.foldl_nil,
    keepChain_keeps hc List.not_mem_nil fun o j hoj hj => ?first,
    keepChain_keeps he ?fresh fun o j hoj hj => ?second]
  · rfl
  case first =>
    -- the other index belongs to the second candidate
    rcases List.mem_pair.mp hoj with h | h <;> simp_all
  case fresh => simpa using Ne.symm hne
  case second =>
    rcases List.mem_pair.mp hoj with h | h <;> simp_all

end View

theorem Chain.trim_of_length_le {c : Chain} {d : Nat} (h : c.length ≤ d) : c.trim d = c := by
  simp [Chain.trim, Nat.sub_eq_zero_of_le h]

theorem Store.createAll_singleton {s : Store} {r : BlockRecord}
    (hnew : ∀ y ∈ s.headers, y.hash ≠ r.hash) : s.createAll [r] = .ok (s.putHeader r) := by
  have hnone : s.findByHash r.hash = none := by
    simp only [Store.findByHash, List.find?_eq_none, beq_iff_eq]
    exact hnew
  simp [Store.createAll, hnone]

section ConnectTip

variable {x : Header} {c : Chain} {p : Params} {t r : BlockRecord}

theorem connectTip_of_on_tip (ht : c.tip? = some t) (hon : t.hash = x.prevHash)
    (hc : checkNewTip x c p = .connected r) : connectTip x c p = .extend r := by
  rw [connectTip_eq, ht, Option.map_some, Option.getD_some, if_pos (beq_iff_eq.mpr hon), hc]

theorem connectTip_of_fork (ht : c.tip? = some t) (hoff : t.hash ≠ x.prevHash) {fork : Chain}
    (hf : c.prefixThrough x.prevHash = some fork) (hc : checkNewTip x fork p = .connected r) :
    connectTip x c p = .reorg r (fork.push r) := by
  rw [connectTip_eq, ht, Option.map_some, Option.getD_some,
    if_neg (by simpa only [beq_iff_eq] using hoff), hf]
  simp only [hc]

theorem connectTip_of_unknown_parent (ht : c.tip? = some t) (hoff : t.hash ≠ x.prevHash)
    (hf : c.prefixThrough x.prevHash = none) : connectTip x c p = .rejected (.badPrev x) := by
  rw [connectTip_eq, ht, Option.map_some, Option.getD_some,
    if_neg (by simpa only [beq_iff_eq] using hoff), hf]

theorem checkNewTip_of_required {b : UInt32} (ht : c.tip? = some t) (hprev : x.prevHash = t.hash)
    (hreq : nextWorkRequired t.header t.height x p
      (fun h => (c.atHeightIn c.records.toArray h).map (·.header)) = some b) (hb : b = x.bits) :
    checkNewTip x c p = checkNewTip.checkWork x t p := by
  simp [checkNewTip, ht, hprev, hreq, hb]

end ConnectTip

namespace ChainUpdate

variable {p : Params} {x : Header} {c : Chain} {r : BlockRecord}

theorem step_start_extend (h : connectTip x c p = .extend r) :
    (start c).step p x = [⟨c.push r, [r], none⟩] := by
  simp [step, start, h]

theorem step_start_reorg {fork : Chain} (h : connectTip x c p = .reorg r fork) :
    (start c).step p x = [⟨fork, [r], none⟩, start c] := by
  simp [step, start, h]

theorem step_of_extend {rs : List BlockRecord} (h : connectTip x c p = .extend r) :
    (⟨c, rs, none⟩ : ChainUpdate).step p x = [⟨c.push r, rs ++ [r], none⟩] := by
  simp [step, h]

end ChainUpdate

theorem connectHeaders_singleton (x : Header) (cs : List Chain) (p : Params) :
    connectHeaders [x] cs p = cs.flatMap fun c => (ChainUpdate.start c).step p x := by
  simp [connectHeaders, List.flatMap_map]

namespace NodeStep

theorem processHeaders_single {v : View} {n : Node} {x : Header} {r : BlockRecord}
    (hfresh : View.freshHeaders n.store (v.chainsIn n) [x] = [x])
    (hknown : ∃ c ∈ v.chainsIn n, c.contains x.prevHash = true)
    (hconn : View.connectedRecords (connectHeaders [x] (v.chainsIn n) v.params) = [r])
    (hnew : ∀ y ∈ n.store.headers, y.hash ≠ r.hash) :
    processHeaders v [x] n =
      .ok { v with
          chains := View.pruneChains v.config.cacheDepth
            ((connectHeaders [x] (v.chainsIn n) v.params).map (·.chain))
          generation := n.generationOf v.session + 1 }
        { n with
          store := n.store.putHeader r
          generations := n.generations.set v.session (n.generationOf v.session + 1)
          outbox := n.outbox ++ [(v.session, .headersConnected [r])] } := by
  have hparents : View.withForkParents n.store v.config.cacheDepth [x.hash] (v.chainsIn n) [x] =
      v.chainsIn n :=
    View.withForkParents_of_known fun h hh => (List.mem_singleton.mp hh) ▸ hknown
  rw [processHeaders_apply]
  simp only [List.isEmpty_cons, Bool.false_eq_true, ↓reduceIte, hfresh, List.map_cons,
    List.map_nil, hparents, hconn, List.mergeSort_singleton, Store.createAll_singleton hnew]

end NodeStep

/-- A reachable handler whose latest view is current, has the candidates `chains` and no
checkpoint, over a store that holds the block records `records` and no filter header. -/
structure Handler.Reads (config : Config) (h : Handler) (chains : List Chain)
    (records : List BlockRecord) : Prop where
  reachable : Reachable config h
  latest : ∃ v vs, h.views = v :: vs ∧ v.chains = chains ∧ v.generation = h.node.generationOf 0 ∧
    v.checkpoints = []
  headers : h.node.store.headers = records
  filterHeaders : h.node.store.filterHeaders = []

namespace Handler.Reads

variable {config : Config} {h : Handler} {cs : List Chain} {rs : List BlockRecord}

theorem serveLatest_header (hh : h.Reads config cs rs) {x : Header} {r : BlockRecord}
    (hcx : ∀ c ∈ cs, c.contains x.hash = false) (hrx : ∀ y ∈ rs, y.hash ≠ x.hash)
    (hknown : ∃ c ∈ cs, c.contains x.prevHash = true)
    (hconn : View.connectedRecords (connectHeaders [x] cs config.params) = [r])
    (hrr : ∀ y ∈ rs, y.hash ≠ r.hash) :
    (h.serveLatest (.headers [x])).Reads config
      (View.pruneChains config.cacheDepth ((connectHeaders [x] cs config.params).map (·.chain)))
      (r :: rs) := by
  obtain ⟨v, vs, hviews, hch, hgen, hcp⟩ := hh.latest
  obtain ⟨n, views⟩ := h
  dsimp only at hviews hgen hh
  subst hviews
  have hv := hh.reachable.valid
  obtain ⟨hconf, hsess, -⟩ := hv.views v List.mem_cons_self
  -- the view is current, so a write reads its own candidates
  have hin : v.chainsIn n = cs := by
    rw [View.chainsIn, View.staleIn, hsess, ← hgen, bne_self_eq_false, if_neg Bool.false_ne_true,
      hch]
  have hparams : v.params = config.params := by rw [View.params, hconf]
  have hstored : n.store.headers = rs := hh.headers
  have hrun := NodeStep.processHeaders_single (v := v) (n := n)
    (by rw [hin]; exact View.freshHeaders_singleton hcx (hstored ▸ hrx))
    (by rwa [hin]) (by rwa [hin, hparams]) (hstored ▸ hrr)
  have hstep : Handler.serveLatest ⟨n, v :: vs⟩ (.headers [x]) =
      ⟨{ n with
          store := n.store.putHeader r
          generations := n.generations.set v.session (n.generationOf v.session + 1)
          outbox := n.outbox ++ [(v.session, .headersConnected [r])] },
        { v with
          chains := View.pruneChains v.config.cacheDepth
            ((connectHeaders [x] (v.chainsIn n) v.params).map (·.chain))
          generation := n.generationOf v.session + 1 } :: v :: vs⟩ := by
    simp only [Handler.serveLatest, Handler.serve, Request.run, hrun]
  have hset : n.generations.set 0 (n.generations.getD 0 0 + 1) = [n.generations.getD 0 0 + 1] := by
    simpa [hsess] using hv.set_next_generation List.mem_cons_self
  refine ⟨hh.reachable.serveLatest _, ?_, ?_, ?_⟩
  · rw [hstep]
    refine ⟨_, v :: vs, rfl, ?_, ?_, hcp⟩
    · rw [hin, hparams, hconf]
    · simp only [Node.generationOf, hsess, hset]
      rfl
  · rw [hstep]
    dsimp only
    rw [Store.putHeader_headers, hstored,
      List.filter_eq_self.mpr fun y hy => by simpa using hrr y hy]
  · rw [hstep]
    exact hh.filterHeaders

end Handler.Reads

/-! ## Two siblings on the genesis block, and a block on the second -/

theorem forTesting_start_reads :
    Handler.Reads Config.forTesting ⟨Node.opened Config.forTesting, [View.opened Config.forTesting]⟩
      [Chain.single (BlockRecord.genesis Config.forTesting.params)]
      [BlockRecord.genesis Config.forTesting.params] :=
  ⟨Reachable.start rfl, ⟨_, [], rfl, forTesting_chains, rfl, rfl⟩, rfl, rfl⟩

theorem testBlocks_hash_ne_zero : ∀ x ∈ [(BlockRecord.genesis Config.forTesting.params).hash,
    siblingA.hash, siblingB.hash, childOfB.hash], x ≠ Hash256.zero := by
  rw [forTesting_genesis_hash, siblingA_hash, siblingB_hash, childOfB_hash]
  decide

theorem testBlocks_hash_ne :
    (BlockRecord.genesis Config.forTesting.params).hash ≠ siblingA.hash ∧
    (BlockRecord.genesis Config.forTesting.params).hash ≠ siblingB.hash ∧
    (BlockRecord.genesis Config.forTesting.params).hash ≠ childOfB.hash ∧
    siblingA.hash ≠ siblingB.hash ∧ siblingA.hash ≠ childOfB.hash ∧
    siblingB.hash ≠ childOfB.hash := by
  rw [forTesting_genesis_hash, siblingA_hash, siblingB_hash, childOfB_hash]
  decide

theorem testBlocks_pow : checkProofOfWork siblingB Config.forTesting.params = .ok true ∧
    checkProofOfWork childOfB Config.forTesting.params = .ok true := by
  simp only [checkProofOfWork, siblingB_hash, childOfB_hash]
  decide

theorem siblings_prevHash :
    siblingA.prevHash = (BlockRecord.genesis Config.forTesting.params).hash ∧
    siblingB.prevHash = (BlockRecord.genesis Config.forTesting.params).hash :=
  ⟨rfl, rfl⟩

theorem connectTip_siblingA :
    connectTip siblingA (Chain.single (BlockRecord.genesis Config.forTesting.params))
      Config.forTesting.params =
      .extend ((BlockRecord.genesis Config.forTesting.params).child siblingA) :=
  connectTip_of_on_tip rfl siblings_prevHash.1.symm siblingA_connects

theorem siblingB_connects : checkNewTip siblingB
    (Chain.single (BlockRecord.genesis Config.forTesting.params)) Config.forTesting.params =
      .connected ((BlockRecord.genesis Config.forTesting.params).child siblingB) := by
  rw [checkNewTip_forTesting_genesis _ rfl (by decide), if_neg (by decide), checkNewTip.checkWork,
    testBlocks_pow.1]

theorem connectTip_siblingB :
    connectTip siblingB ⟨[BlockRecord.genesis Config.forTesting.params,
        (BlockRecord.genesis Config.forTesting.params).child siblingA]⟩ Config.forTesting.params =
      .reorg ((BlockRecord.genesis Config.forTesting.params).child siblingB)
        ⟨[BlockRecord.genesis Config.forTesting.params,
          (BlockRecord.genesis Config.forTesting.params).child siblingB]⟩ := by
  obtain ⟨hGA, -, -, -, -, -⟩ := testBlocks_hash_ne
  have hfork : Chain.prefixThrough ⟨[BlockRecord.genesis Config.forTesting.params,
      (BlockRecord.genesis Config.forTesting.params).child siblingA]⟩ siblingB.prevHash =
      some (Chain.single (BlockRecord.genesis Config.forTesting.params)) := by
    simp [Chain.prefixThrough, Chain.position?, siblings_prevHash.2, Ne.symm hGA, List.zipIdx,
      Chain.single]
  exact connectTip_of_fork (t := (BlockRecord.genesis Config.forTesting.params).child siblingA) rfl
    (by rw [BlockRecord.child_hash, siblings_prevHash.2]; exact Ne.symm hGA) hfork siblingB_connects

theorem childOfB_connects : checkNewTip childOfB
    ⟨[BlockRecord.genesis Config.forTesting.params,
      (BlockRecord.genesis Config.forTesting.params).child siblingB]⟩ Config.forTesting.params =
      .connected (((BlockRecord.genesis Config.forTesting.params).child siblingB).child childOfB) := by
  obtain ⟨hb, -, h0, hi, hamd, hsp⟩ := forTesting_genesis_fields
  have hlimit : Config.forTesting.params.powLimitBits = 0x207fffff := by decide
  have hbits : siblingB.bits = 0x207fffff ∧ childOfB.bits = 0x207fffff := ⟨rfl, rfl⟩
  -- the block comes 600 seconds after its parent, well within twice the spacing
  have htime : ¬(siblingB.timestamp.toNat + 2 * 600 < childOfB.timestamp.toNat ∨
      4294967295 < childOfB.timestamp.toNat) := by decide
  have hreq : nextWorkRequired siblingB 1 childOfB Config.forTesting.params
      (fun h => (Chain.atHeightIn ⟨[BlockRecord.genesis Config.forTesting.params,
        (BlockRecord.genesis Config.forTesting.params).child siblingB]⟩
        #[BlockRecord.genesis Config.forTesting.params,
        (BlockRecord.genesis Config.forTesting.params).child siblingB] h).map (·.header)) =
      some 0x207fffff := by
    simp [nextWorkRequired, lastRealBits, Chain.atHeightIn, Chain.first?, hlimit, hbits, hb, h0, hi,
      hamd, hsp, htime]
  rw [checkNewTip_of_required (t := (BlockRecord.genesis Config.forTesting.params).child siblingB)
    rfl rfl hreq rfl, checkNewTip.checkWork, testBlocks_pow.2]

theorem connectTip_childOfB_onB : connectTip childOfB ⟨[BlockRecord.genesis Config.forTesting.params,
      (BlockRecord.genesis Config.forTesting.params).child siblingB]⟩ Config.forTesting.params =
    .extend (((BlockRecord.genesis Config.forTesting.params).child siblingB).child childOfB) :=
  connectTip_of_on_tip (t := (BlockRecord.genesis Config.forTesting.params).child siblingB) rfl
    rfl childOfB_connects

theorem connectTip_childOfB_offA : connectTip childOfB ⟨[BlockRecord.genesis Config.forTesting.params,
      (BlockRecord.genesis Config.forTesting.params).child siblingA]⟩ Config.forTesting.params =
    .rejected (.badPrev childOfB) := by
  obtain ⟨-, hGB, -, hAB, -, -⟩ := testBlocks_hash_ne
  have hnone : Chain.prefixThrough ⟨[BlockRecord.genesis Config.forTesting.params,
      (BlockRecord.genesis Config.forTesting.params).child siblingA]⟩ childOfB.prevHash = none := by
    simp [Chain.prefixThrough, Chain.position?, show childOfB.prevHash = siblingB.hash from rfl,
      hGB, hAB, List.zipIdx]
  exact connectTip_of_unknown_parent
    (t := (BlockRecord.genesis Config.forTesting.params).child siblingA) rfl hAB hnone

/-- The second sibling and the block on it, offered to the candidate through the first sibling:
the sibling forks it at the genesis block, the block extends the fork, and the first candidate,
which holds neither the block's parent nor anything above it, fails at the block. -/
theorem connectHeaders_fork :
    connectHeaders [siblingB, childOfB] [⟨[BlockRecord.genesis Config.forTesting.params,
        (BlockRecord.genesis Config.forTesting.params).child siblingA]⟩] Config.forTesting.params =
      [⟨⟨[BlockRecord.genesis Config.forTesting.params,
          (BlockRecord.genesis Config.forTesting.params).child siblingB,
          ((BlockRecord.genesis Config.forTesting.params).child siblingB).child childOfB]⟩,
        [(BlockRecord.genesis Config.forTesting.params).child siblingB,
          ((BlockRecord.genesis Config.forTesting.params).child siblingB).child childOfB], none⟩,
        ⟨⟨[BlockRecord.genesis Config.forTesting.params,
          (BlockRecord.genesis Config.forTesting.params).child siblingA]⟩, [],
          some (childOfB, .badPrev childOfB)⟩] := by
  rw [show [siblingB, childOfB] = [siblingB] ++ [childOfB] from rfl, connectHeaders_concat,
    connectHeaders_singleton, List.flatMap_singleton, ChainUpdate.step_start_reorg connectTip_siblingB,
    List.flatMap_cons, List.flatMap_singleton, ChainUpdate.step_of_extend connectTip_childOfB_onB,
    ChainUpdate.step_start_of_rejected connectTip_childOfB_offA]
  rfl

/-- The fork offered to the candidate through the first sibling: the fork gains both headers, the
candidate none, and every record the fork gained is the tip check's record on the one before. -/
theorem fork_keeps_chains_valid :
    let cs : List Chain := [⟨[BlockRecord.genesis Config.forTesting.params,
      (BlockRecord.genesis Config.forTesting.params).child siblingA]⟩]
    let p := Config.forTesting.params
    (∀ c ∈ cs, Linked c.records) ∧
    (connectHeaders [siblingB, childOfB] cs p).map (·.connected.length) = [2, 0] ∧
    ∀ u ∈ connectHeaders [siblingB, childOfB] cs p,
      Linked u.chain.records ∧ (u.connected.map (·.header)).Sublist [siblingB, childOfB] ∧
      ∃ pre, u.chain.records = pre ++ u.connected ∧
        ∀ xs s ys, u.connected = xs ++ s :: ys →
          ∃ parent, (pre ++ xs).getLast? = some parent ∧ s = parent.child s.header ∧
            checkNewTip s.header ⟨pre ++ xs⟩ p = .connected s ∧
            s.height = parent.height + 1 ∧
            s.work = Work.addWork parent.work (Work.blockProof s.header.bits) := by
  intro cs p
  have hcs : ∀ c ∈ cs, Linked c.records := by
    simp [cs, Linked, Follows, BlockRecord.prevHash, siblings_prevHash.1]
  have hlen : (connectHeaders [siblingB, childOfB] cs p).map (·.connected.length) = [2, 0] := by
    simp only [cs, p, connectHeaders_fork]
    rfl
  exact ⟨hcs, hlen, connectHeaders_keeps_chains_valid _ p hcs⟩

/-- The fork offered to the candidate through the first sibling: the candidate is kept and fails
at the block on the second sibling, and the one fork adds one candidate. -/
theorem fork_keeps_candidates :
    let cs : List Chain := [⟨[BlockRecord.genesis Config.forTesting.params,
      (BlockRecord.genesis Config.forTesting.params).child siblingA]⟩]
    let hs := [siblingB, childOfB]
    let p := Config.forTesting.params
    (connectHeaders hs cs p).map (·.failure.isSome) = [false, true] ∧
    (∀ c ∈ cs, ∃ u ∈ connectHeaders hs cs p, u.chain.records = c.records ++ u.connected) ∧
    (∀ u ∈ connectHeaders hs cs p, ∀ h f, u.failure = some (h, f) →
      ∃ hs₁ hs₂ v, hs = hs₁ ++ h :: hs₂ ∧ v ∈ connectHeaders hs₁ cs p ∧ v.failure = none ∧
        connectTip h v.chain p = .rejected f ∧ u = ⟨v.chain, v.connected, some (h, f)⟩ ∧
        ∀ k ≤ hs₂.length, u ∈ connectHeaders (hs₁ ++ h :: hs₂.take k) cs p) ∧
    (connectHeaders hs cs p).length =
      cs.length + ((applications p hs (cs.map ChainUpdate.start)).filter
        fun a => (connectTip a.1 a.2.chain p).isReorg).length := by
  intro cs hs p
  have hfail : (connectHeaders hs cs p).map (·.failure.isSome) = [false, true] := by
    simp only [cs, hs, p, connectHeaders_fork]
    rfl
  exact ⟨hfail, connectHeaders_keeps_candidates hs cs p⟩

theorem siblingA_reads :
    Handler.Reads Config.forTesting
      (Handler.serveLatest ⟨Node.opened Config.forTesting, [View.opened Config.forTesting]⟩
        (.headers [siblingA]))
      [⟨[BlockRecord.genesis Config.forTesting.params,
        (BlockRecord.genesis Config.forTesting.params).child siblingA]⟩]
      [(BlockRecord.genesis Config.forTesting.params).child siblingA,
        BlockRecord.genesis Config.forTesting.params] := by
  obtain ⟨hGA, -, -, -, -, -⟩ := testBlocks_hash_ne
  have hupd : connectHeaders [siblingA] [Chain.single (BlockRecord.genesis Config.forTesting.params)]
      Config.forTesting.params =
      [⟨⟨[BlockRecord.genesis Config.forTesting.params,
        (BlockRecord.genesis Config.forTesting.params).child siblingA]⟩,
        [(BlockRecord.genesis Config.forTesting.params).child siblingA], none⟩] := by
    rw [connectHeaders_singleton, List.flatMap_singleton,
      ChainUpdate.step_start_extend connectTip_siblingA]
    rfl
  have hstep := Handler.Reads.serveLatest_header forTesting_start_reads (x := siblingA)
    (r := (BlockRecord.genesis Config.forTesting.params).child siblingA)
    (by simp [Chain.single, Chain.contains, hGA]) (by simpa using hGA)
    ⟨_, List.mem_singleton_self _, by simp [Chain.single, Chain.contains, siblings_prevHash.1]⟩
    (by rw [hupd]; rfl) (by simpa using hGA)
  rwa [hupd, List.map_singleton, View.pruneChains_singleton rfl,
    Chain.trim_of_length_le (by decide)] at hstep

theorem siblingB_reads :
    Handler.Reads Config.forTesting
      ((Handler.serveLatest ⟨Node.opened Config.forTesting, [View.opened Config.forTesting]⟩
        (.headers [siblingA])).serveLatest (.headers [siblingB]))
      [⟨[BlockRecord.genesis Config.forTesting.params,
          (BlockRecord.genesis Config.forTesting.params).child siblingB]⟩,
        ⟨[BlockRecord.genesis Config.forTesting.params,
          (BlockRecord.genesis Config.forTesting.params).child siblingA]⟩]
      [(BlockRecord.genesis Config.forTesting.params).child siblingB,
        (BlockRecord.genesis Config.forTesting.params).child siblingA,
        BlockRecord.genesis Config.forTesting.params] := by
  obtain ⟨hGA, hGB, -, hAB, -, -⟩ := testBlocks_hash_ne
  have hupd : connectHeaders [siblingB] [⟨[BlockRecord.genesis Config.forTesting.params,
      (BlockRecord.genesis Config.forTesting.params).child siblingA]⟩] Config.forTesting.params =
      [⟨⟨[BlockRecord.genesis Config.forTesting.params,
          (BlockRecord.genesis Config.forTesting.params).child siblingB]⟩,
        [(BlockRecord.genesis Config.forTesting.params).child siblingB], none⟩,
        ChainUpdate.start ⟨[BlockRecord.genesis Config.forTesting.params,
          (BlockRecord.genesis Config.forTesting.params).child siblingA]⟩] := by
    rw [connectHeaders_singleton, List.flatMap_singleton,
      ChainUpdate.step_start_reorg connectTip_siblingB]
  -- neither candidate holds the other's tip, and the tips differ: both are kept
  have hprune : View.pruneChains Config.forTesting.cacheDepth
      [⟨[BlockRecord.genesis Config.forTesting.params,
          (BlockRecord.genesis Config.forTesting.params).child siblingB]⟩,
        ⟨[BlockRecord.genesis Config.forTesting.params,
          (BlockRecord.genesis Config.forTesting.params).child siblingA]⟩] =
      [⟨[BlockRecord.genesis Config.forTesting.params,
          (BlockRecord.genesis Config.forTesting.params).child siblingB]⟩,
        ⟨[BlockRecord.genesis Config.forTesting.params,
          (BlockRecord.genesis Config.forTesting.params).child siblingA]⟩] := by
    have hBA : Chain.contains ⟨[BlockRecord.genesis Config.forTesting.params,
        (BlockRecord.genesis Config.forTesting.params).child siblingA]⟩ siblingB.hash = false := by
      simp only [Chain.contains, List.any_cons, List.any_nil, BlockRecord.child_hash,
        beq_eq_false_iff_ne.mpr hGB, beq_eq_false_iff_ne.mpr hAB, Bool.or_false]
    have hAB' : Chain.contains ⟨[BlockRecord.genesis Config.forTesting.params,
        (BlockRecord.genesis Config.forTesting.params).child siblingB]⟩ siblingA.hash = false := by
      simp only [Chain.contains, List.any_cons, List.any_nil, BlockRecord.child_hash,
        beq_eq_false_iff_ne.mpr hGA, beq_eq_false_iff_ne.mpr (Ne.symm hAB), Bool.or_false]
    rw [View.pruneChains_pair (t := (BlockRecord.genesis Config.forTesting.params).child siblingB)
      (u := (BlockRecord.genesis Config.forTesting.params).child siblingA) rfl rfl
      (by simpa using Ne.symm hAB) (by simpa using hAB') (by simpa using hBA),
      Chain.trim_of_length_le (by decide), Chain.trim_of_length_le (by decide)]
  have hstep := Handler.Reads.serveLatest_header siblingA_reads (x := siblingB)
    (r := (BlockRecord.genesis Config.forTesting.params).child siblingB)
    (by simp [Chain.contains, hGB, hAB]) (by simp [hGB, hAB])
    ⟨_, List.mem_singleton_self _, by simp [Chain.contains, siblings_prevHash.2]⟩
    (by rw [hupd]; rfl) (by simp [hGB, hAB])
  rwa [hupd, List.map_cons, List.map_cons, List.map_nil, ChainUpdate.start, hprune] at hstep

def forkRun : Handler :=
  [Request.headers [siblingA], .headers [siblingB], .headers [childOfB]].foldl
    Handler.serveLatest ⟨Node.opened Config.forTesting, [View.opened Config.forTesting]⟩

theorem forkRun_reads :
    forkRun.Reads Config.forTesting
      [⟨[BlockRecord.genesis Config.forTesting.params,
          (BlockRecord.genesis Config.forTesting.params).child siblingB,
          ((BlockRecord.genesis Config.forTesting.params).child siblingB).child childOfB]⟩,
        ⟨[BlockRecord.genesis Config.forTesting.params,
          (BlockRecord.genesis Config.forTesting.params).child siblingA]⟩]
      [((BlockRecord.genesis Config.forTesting.params).child siblingB).child childOfB,
        (BlockRecord.genesis Config.forTesting.params).child siblingB,
        (BlockRecord.genesis Config.forTesting.params).child siblingA,
        BlockRecord.genesis Config.forTesting.params] := by
  rw [forkRun, List.foldl_cons, List.foldl_cons, List.foldl_cons, List.foldl_nil]
  obtain ⟨hGA, hGB, hGC, hAB, hAC, hBC⟩ := testBlocks_hash_ne
  have hupd : connectHeaders [childOfB]
      [⟨[BlockRecord.genesis Config.forTesting.params,
          (BlockRecord.genesis Config.forTesting.params).child siblingB]⟩,
        ⟨[BlockRecord.genesis Config.forTesting.params,
          (BlockRecord.genesis Config.forTesting.params).child siblingA]⟩] Config.forTesting.params =
      [⟨⟨[BlockRecord.genesis Config.forTesting.params,
          (BlockRecord.genesis Config.forTesting.params).child siblingB,
          ((BlockRecord.genesis Config.forTesting.params).child siblingB).child childOfB]⟩,
        [((BlockRecord.genesis Config.forTesting.params).child siblingB).child childOfB], none⟩,
        ⟨⟨[BlockRecord.genesis Config.forTesting.params,
          (BlockRecord.genesis Config.forTesting.params).child siblingA]⟩, [],
          some (childOfB, .badPrev childOfB)⟩] := by
    rw [connectHeaders_singleton, List.flatMap_cons, List.flatMap_singleton,
      ChainUpdate.step_start_extend connectTip_childOfB_onB,
      ChainUpdate.step_start_of_rejected connectTip_childOfB_offA]
    rfl
  have hprune : View.pruneChains Config.forTesting.cacheDepth
      [⟨[BlockRecord.genesis Config.forTesting.params,
          (BlockRecord.genesis Config.forTesting.params).child siblingB,
          ((BlockRecord.genesis Config.forTesting.params).child siblingB).child childOfB]⟩,
        ⟨[BlockRecord.genesis Config.forTesting.params,
          (BlockRecord.genesis Config.forTesting.params).child siblingA]⟩] =
      [⟨[BlockRecord.genesis Config.forTesting.params,
          (BlockRecord.genesis Config.forTesting.params).child siblingB,
          ((BlockRecord.genesis Config.forTesting.params).child siblingB).child childOfB]⟩,
        ⟨[BlockRecord.genesis Config.forTesting.params,
          (BlockRecord.genesis Config.forTesting.params).child siblingA]⟩] := by
    have hCA : Chain.contains ⟨[BlockRecord.genesis Config.forTesting.params,
        (BlockRecord.genesis Config.forTesting.params).child siblingA]⟩ childOfB.hash = false := by
      simp only [Chain.contains, List.any_cons, List.any_nil, BlockRecord.child_hash,
        beq_eq_false_iff_ne.mpr hGC, beq_eq_false_iff_ne.mpr hAC, Bool.or_false]
    have hAC' : Chain.contains ⟨[BlockRecord.genesis Config.forTesting.params,
        (BlockRecord.genesis Config.forTesting.params).child siblingB,
        ((BlockRecord.genesis Config.forTesting.params).child siblingB).child childOfB]⟩
        siblingA.hash = false := by
      simp only [Chain.contains, List.any_cons, List.any_nil, BlockRecord.child_hash,
        beq_eq_false_iff_ne.mpr hGA, beq_eq_false_iff_ne.mpr (Ne.symm hAB),
        beq_eq_false_iff_ne.mpr (Ne.symm hAC), Bool.or_false]
    rw [View.pruneChains_pair
      (t := ((BlockRecord.genesis Config.forTesting.params).child siblingB).child childOfB)
      (u := (BlockRecord.genesis Config.forTesting.params).child siblingA) rfl rfl
      (by simpa using Ne.symm hAC) (by simpa using hAC') (by simpa using hCA),
      Chain.trim_of_length_le (by decide), Chain.trim_of_length_le (by decide)]
  have hstep := Handler.Reads.serveLatest_header siblingB_reads (x := childOfB)
    (r := ((BlockRecord.genesis Config.forTesting.params).child siblingB).child childOfB)
    (by simp [Chain.contains, hGC, hBC, hAC]) (by simp [hGC, hBC, hAC])
    ⟨_, List.mem_cons_self, by simp [Chain.contains, show childOfB.prevHash = siblingB.hash from rfl]⟩
    (by rw [hupd]; rfl) (by simp [hGC, hBC, hAC])
  rwa [hupd, List.map_cons, List.map_cons, List.map_nil, hprune] at hstep

theorem forkRun_reachable : Reachable Config.forTesting forkRun :=
  Handler.Reads.reachable forkRun_reads

theorem forkRun_headers : forkRun.node.store.headers =
    [((BlockRecord.genesis Config.forTesting.params).child siblingB).child childOfB,
      (BlockRecord.genesis Config.forTesting.params).child siblingB,
      (BlockRecord.genesis Config.forTesting.params).child siblingA,
      BlockRecord.genesis Config.forTesting.params] :=
  Handler.Reads.headers forkRun_reads

theorem forkRun_latest : ∃ v ∈ forkRun.views, v.chains.length = 2 ∧
    v.generation = forkRun.node.generationOf v.session := by
  obtain ⟨v, vs, hviews, hch, hgen, -⟩ := Handler.Reads.latest forkRun_reads
  have hvm : v ∈ forkRun.views := hviews ▸ List.mem_cons_self
  have hr := forkRun_reachable
  obtain ⟨-, hsess, -⟩ := hr.valid.views v hvm
  exact ⟨v, hvm, by rw [hch]; rfl, by rw [hsess]; exact hgen⟩

/-- The fork run's store: four blocks, the two siblings forking at the genesis block. -/
theorem forkRun_block_records_form_tree :
    Reachable Config.forTesting forkRun ∧
    forkRun.node.store.headers =
      [((BlockRecord.genesis Config.forTesting.params).child siblingB).child childOfB,
        (BlockRecord.genesis Config.forTesting.params).child siblingB,
        (BlockRecord.genesis Config.forTesting.params).child siblingA,
        BlockRecord.genesis Config.forTesting.params] ∧
    (BlockRecord.genesis Config.forTesting.params ∈ forkRun.node.store.headers ∧
      ∀ r ∈ forkRun.node.store.headers, r.height = 0 →
        r = BlockRecord.genesis Config.forTesting.params) ∧
    (∀ r ∈ forkRun.node.store.headers,
      forkRun.node.store.findByHash r.hash = some r ∧ r.hash = r.header.hash) ∧
    (∀ r ∈ forkRun.node.store.headers, 0 < r.height → ∃ q ∈ forkRun.node.store.headers,
      q.hash = r.prevHash ∧ q.height + 1 = r.height ∧
        r.work = Work.addWork q.work (Work.blockProof r.bits)) ∧
    (∀ r ∈ forkRun.node.store.headers, checkProofOfWork r.header Config.forTesting.params = .ok true ∧
      (Config.forTesting.params.allowMinDifficulty = false → r.height < 2 ^ 32 →
        r.height % Config.forTesting.params.interval ≠ 0 →
        ∃ q ∈ forkRun.node.store.headers, q.hash = r.prevHash ∧ r.bits = q.bits)) ∧
    ∀ v ∈ forkRun.views, ∀ c ∈ v.chains,
      Linked c.records ∧ ∀ r ∈ c.records, r ∈ forkRun.node.store.headers :=
  ⟨forkRun_reachable, forkRun_headers, reachable_block_records_form_tree forkRun_reachable⟩

theorem forkRun_heights : ∀ r ∈ forkRun.node.store.headers, r.height < 2 ^ 32 := by
  rw [forkRun_headers]
  decide

theorem forkRun_hash_ne_zero : ¬forkRun.node.store.StoresZeroHash := by
  rintro ⟨r, hr, h0⟩
  rw [forkRun_headers] at hr
  have hne := testBlocks_hash_ne_zero
  simp only [List.mem_cons, List.not_mem_nil, or_false, forall_eq_or_imp, forall_eq] at hr hne
  rcases hr with rfl | rfl | rfl | rfl <;> simp_all [BlockRecord.child_hash]

/-- The fork run's latest view, with what every reachable state keeps: the header store, its
height index, and the view's candidates held in the store. -/
theorem forkRun_latest_holds : ∃ v ∈ forkRun.views, v.chains.length = 2 ∧
    HeaderStore Config.forTesting.params forkRun.node.store ∧ forkRun.node.store.IndexCovers ∧
    ∀ c ∈ v.chains, forkRun.node.store.HoldsChain c := by
  obtain ⟨v, hvm, hlen, -⟩ := forkRun_latest
  have hr := forkRun_reachable
  exact ⟨v, hvm, hlen, hr.valid.headers, hr.indexCovers, hr.valid.chains v hvm⟩

/-- The fork run, from the block on the second sibling, a candidate's tip. -/
theorem forkRun_ancestors :
    let s := forkRun.node.store
    let tip := ((BlockRecord.genesis Config.forTesting.params).child siblingB).child childOfB
    ∃ v ∈ forkRun.views, v.chains.length = 2 ∧
      HeaderStore Config.forTesting.params s ∧ s.IndexCovers ∧ (∀ c ∈ v.chains, s.HoldsChain c) ∧
      tip ∈ s.headers ∧ tip.height < 2 ^ 32 ∧
      ((∀ len, 0 < len → len ≤ 2 ^ 32 →
        v.chainEndingAt s tip len = s.chainTo tip len ∧
        s.HoldsChain (v.chainEndingAt s tip len) ∧ (v.chainEndingAt s tip len).tip? = some tip ∧
        (v.chainEndingAt s tip len).length = min len (tip.height + 1)) ∧
      (∀ hgt, v.ancestorAt s tip hgt = (s.chainTo tip (tip.height + 1)).records[hgt]?) ∧
      (∀ hgt ≤ tip.height, ∃ r, v.ancestorAt s tip hgt = some r ∧ r.height = hgt ∧ r ∈ s.headers) ∧
      (∀ hgt, tip.height < hgt → v.ancestorAt s tip hgt = none)) := by
  intro s tip
  obtain ⟨v, hvm, hlen, hs, hcov, hcs⟩ := forkRun_latest_holds
  have htip : tip ∈ forkRun.node.store.headers := by
    rw [forkRun_headers]
    exact List.mem_cons_self
  have h32 : tip.height < 2 ^ 32 := forkRun_heights tip htip
  exact ⟨v, hvm, hlen, hs, hcov, hcs, htip, h32,
    ancestors_same_from_memory_and_store hs hcov hcs htip h32⟩

/-- The fork run, whose store holds a fork at the genesis block. -/
theorem forkRun_sync_ranges :
    let s := forkRun.node.store
    ∃ v ∈ forkRun.views, v.chains.length = 2 ∧
      HeaderStore Config.forTesting.params s ∧ s.IndexCovers ∧ (∀ c ∈ v.chains, s.HoldsChain c) ∧
      ¬s.StoresZeroHash ∧ (∀ r ∈ s.headers, r.height < 2 ^ 32) ∧
      ((∀ stop ∈ s.headers, ∀ b, 0 < b →
        (∀ k < (stop.height + 1) ⌈/⌉ b, ∃ q, q.height = min ((k + 1) * b - 1) stop.height ∧
          s.IsAncestor q stop ∧ v.headerBatchRun s stop.hash b k = .ok (some ⟨k * b, q.hash⟩)) ∧
        v.headerBatchRun s stop.hash b ((stop.height + 1) ⌈/⌉ b) = .ok none ∧
        ∀ prev ∈ s.headers, prev.hash ≠ stop.hash → ∃ j, s.CommonAncestorAt prev stop j ∧
          (stop.height < j + 1 → v.nextHeaderBatch s prev.hash stop.hash b = .ok none) ∧
          (j + 1 ≤ stop.height → ∃ q, q.height = min (j + b) stop.height ∧ s.IsAncestor q stop ∧
            v.nextHeaderBatch s prev.hash stop.hash b = .ok (some ⟨j + 1, q.hash⟩))) ∧
      ∀ stopHash size start m, v.nextFilterBatch s stopHash size start = .ok (some m) →
        ∃ top, s.maxFilterHeaderHeight = some top ∧
          ∀ q ∈ s.headers, q.hash = m.stopHash → q.height ≤ top) := by
  intro s
  obtain ⟨v, hvm, hlen, hs, hcov, hcs⟩ := forkRun_latest_holds
  exact ⟨v, hvm, hlen, hs, hcov, hcs, forkRun_hash_ne_zero, forkRun_heights,
    sync_ranges_partition_chain hs hcov hcs forkRun_hash_ne_zero forkRun_heights⟩

/-- The fork run, from the first sibling and the block on the second. -/
theorem forkRun_common_ancestor :
    let s := forkRun.node.store
    let a := (BlockRecord.genesis Config.forTesting.params).child siblingA
    let b := ((BlockRecord.genesis Config.forTesting.params).child siblingB).child childOfB
    ∃ v ∈ forkRun.views, v.chains.length = 2 ∧
      HeaderStore Config.forTesting.params s ∧ s.IndexCovers ∧ (∀ c ∈ v.chains, s.HoldsChain c) ∧
      a ∈ s.headers ∧ b ∈ s.headers ∧ a.height < 2 ^ 32 ∧ b.height < 2 ^ 32 ∧
      ∃ j, s.CommonAncestorAt a b j ∧ v.commonAncestorHeight s a b = .ok j ∧
        ∀ fuel, View.meetFrom s v fuel (v.ancestorAt s a (min a.height b.height))
            (v.ancestorAt s b (min a.height b.height)) =
          if min a.height b.height - j < fuel then some j else none := by
  intro s a b
  obtain ⟨v, hvm, hlen, hs, hcov, hcs⟩ := forkRun_latest_holds
  have ha : a ∈ forkRun.node.store.headers := by
    rw [forkRun_headers]
    simp [a]
  have hb : b ∈ forkRun.node.store.headers := by
    rw [forkRun_headers]
    exact List.mem_cons_self
  exact ⟨v, hvm, hlen, hs, hcov, hcs, ha, hb, forkRun_heights a ha, forkRun_heights b hb,
    View.commonAncestorHeight_finds_highest hs hcov hcs ha hb (forkRun_heights a ha)
      (forkRun_heights b hb)⟩

/-- The fork run, at its latest view. -/
theorem forkRun_best_work :
    ∃ v ∈ forkRun.views, v.chains.length = 2 ∧
      v.generation = forkRun.node.generationOf v.session ∧
      (∀ t ∈ forkRun.node.store.chainTips, ∃ c ∈ v.chains, c.tip? = some t) ∧
      (forkRun.node.store.StoresZeroHash ∨ ∃ b, v.bestHeader forkRun.node.store = .ok b ∧
        (forkRun.node.store.chainTips.map (·.work)).max? = some b.work) ∧
      ∀ (req : Request), ∀ u ∈ forkRun.views, ∀ v' ∈ (forkRun.serve req u).views,
        v'.generation = (forkRun.serve req u).node.generationOf v'.session →
        (forkRun.serve req u).node.store.StoresZeroHash ∨
          ∀ b b', v.bestHeader forkRun.node.store = .ok b →
            v'.bestHeader (forkRun.serve req u).node.store = .ok b' → b.work ≤ b'.work := by
  obtain ⟨v, hvm, hlen, hfresh⟩ := forkRun_latest
  exact ⟨v, hvm, hlen, hfresh, latest_view_best_work forkRun_reachable hvm hfresh⟩

/-- The fork run, given at its latest view a batch whose first header asks for the wrong target. -/
theorem forkRun_batch_stores_taken_records :
    let hs := [wrongTargetSibling, siblingA]
    ∃ v ∈ forkRun.views, v.chains.length = 2 ∧
      (∀ e n', NodeStep.processHeaders v hs forkRun.node = .error e n' →
        n' = forkRun.node ∧
          ∀ r, ¬RunTakes v.params (v.batchCandidates forkRun.node hs) (v.newHeaders forkRun.node hs) r) ∧
      ∀ v' n', NodeStep.processHeaders v hs forkRun.node = .ok v' n' → ∀ r, r ∈ n'.store.headers ↔
        r ∈ forkRun.node.store.headers ∨
          RunTakes v.params (v.batchCandidates forkRun.node hs) (v.newHeaders forkRun.node hs) r := by
  intro hs
  obtain ⟨v, hvm, hlen, -⟩ := forkRun_latest
  exact ⟨v, hvm, hlen, header_batch_stores_taken_records forkRun_reachable hvm hs⟩

end BitcoinLight
