import BitcoinLight.Proofs.FilterChain
import BitcoinLight.Proofs.CandidateUpdates
import BitcoinLight.Proofs.BatchRanges

set_option autoImplicit false

/-!
# What a batch of headers stores

Connecting a run of headers to candidate chains gains a record for a header when a candidate
takes it at its turn, on the tip or as a fork, and that candidate has rejected no earlier header of
the run: a candidate that rejects a header is frozen for the rest of the run (`RunTakes`). Adding a
batch of headers stores exactly those records for its new headers, and a batch that fails stores
nothing and had nothing to store.

So a valid header is lost when every candidate it could join has rejected an earlier header of the
batch. A header that every candidate rejects, sent first, freezes them all, and a valid header
after it, built on a stored block, is not stored.
-/

namespace BitcoinLight

open ChainUpdate

/-- A candidate takes header `h` of the run `hs` as record `r`: the headers before `h` leave a
candidate that has rejected none of them, and `h` connects to it, on its tip or as a fork. -/
def RunTakes (p : Params) (cs : List Chain) (hs : List Header) (r : BlockRecord) : Prop :=
  ∃ hs₁ h hs₂, hs = hs₁ ++ h :: hs₂ ∧ ∃ u ∈ connectHeaders hs₁ cs p, u.failure = none ∧
    (connectTip h u.chain p = .extend r ∨ ∃ fork, connectTip h u.chain p = .reorg r fork)

/-! ## The records a run gains -/

namespace ChainUpdate

variable {p : Params} {h : Header} {u : ChainUpdate} {r : BlockRecord}

theorem exists_step_of_takes (hf : u.failure = none)
    (hc : connectTip h u.chain p = .extend r ∨ ∃ fork, connectTip h u.chain p = .reorg r fork) :
    ∃ u' ∈ u.step p h, r ∈ u'.connected := by
  unfold step
  rw [hf]
  rcases hc with hext | ⟨fork, hre⟩
  · rw [hext]
    exact ⟨_, List.mem_singleton_self _, List.mem_append_right _ (List.mem_singleton_self _)⟩
  · rw [hre]
    exact ⟨_, List.mem_cons_self, List.mem_singleton_self _⟩

theorem mem_allConnected_flatMap_step {us : List ChainUpdate} :
    r ∈ allConnected (us.flatMap (step p h)) ↔ r ∈ allConnected us ∨
      ∃ u ∈ us, u.failure = none ∧
        (connectTip h u.chain p = .extend r ∨ ∃ fork, connectTip h u.chain p = .reorg r fork) := by
  constructor
  · intro hr
    simp only [allConnected, List.mem_flatMap] at hr
    obtain ⟨u', ⟨u, hu, hu'⟩, hr⟩ := hr
    have hold : r ∈ u.connected → r ∈ allConnected us := fun h' =>
      List.mem_flatMap.mpr ⟨u, hu, h'⟩
    rcases mem_step_cases hu' with rfl | ⟨hf, r', hext, rfl⟩ | ⟨hf, r', fork, hre, rfl⟩ |
      ⟨-, f, -, rfl⟩
    · exact .inl (hold hr)
    · rcases List.mem_append.mp hr with hr | hr
      · exact .inl (hold hr)
      · rw [List.mem_singleton.mp hr]
        exact .inr ⟨u, hu, hf, .inl hext⟩
    · rw [List.mem_singleton.mp hr]
      exact .inr ⟨u, hu, hf, .inr ⟨fork, hre⟩⟩
    · exact .inl (hold hr)
  · rintro (hr | ⟨u, hu, hf, hc⟩)
    · exact allConnected_step_of_mem hr
    · obtain ⟨u', hu', hr⟩ := exists_step_of_takes hf hc
      exact List.mem_flatMap.mpr ⟨u', List.mem_flatMap.mpr ⟨u, hu, hu'⟩, hr⟩

theorem step_start_of_rejected {c : Chain} {f : TipCheck} (hf : connectTip h c p = .rejected f) :
    (start c).step p h = [⟨c, [], some (h, f)⟩] := by
  simp [step, start, hf]

theorem step_of_failed (hf : u.failure.isSome) : u.step p h = [u] := by
  obtain ⟨x, hx⟩ := Option.isSome_iff_exists.mp hf
  unfold step
  rw [hx]

theorem flatMap_step_of_failed : ∀ {us : List ChainUpdate}, (∀ u ∈ us, u.failure.isSome) →
    us.flatMap (step p h) = us
  | [], _ => rfl
  | u :: us, hf => by
    rw [List.flatMap_cons, step_of_failed (hf u List.mem_cons_self),
      flatMap_step_of_failed fun u' hu' => hf u' (List.mem_cons_of_mem _ hu')]
    rfl

theorem foldl_step_of_failed (hs : List Header) :
    ∀ {us : List ChainUpdate}, (∀ u ∈ us, u.failure.isSome) →
      hs.foldl (fun us h => us.flatMap (step p h)) us = us := by
  induction hs with
  | nil => intro us _; rfl
  | cons h hs ih =>
    intro us hf
    rw [List.foldl_cons, flatMap_step_of_failed hf]
    exact ih hf

end ChainUpdate

section Run

variable {p : Params} {cs : List Chain} {r : BlockRecord}

theorem mem_allConnected_connectHeaders (hs : List Header) :
    r ∈ allConnected (connectHeaders hs cs p) ↔ RunTakes p cs hs r := by
  -- by induction from the run's end: one more header adds what the candidates take for it
  induction hs using List.reverseRecOn with
  | nil =>
    simp only [connectHeaders_nil, allConnected_start, List.not_mem_nil, false_iff]
    rintro ⟨hs₁, h, hs₂, heq, -⟩
    simp at heq
  | append_singleton hs h ih =>
    rw [connectHeaders_concat, mem_allConnected_flatMap_step, ih]
    constructor
    · rintro (⟨hs₁, h', hs₂, rfl, hu⟩ | ⟨u, hu, hf, hc⟩)
      · exact ⟨hs₁, h', hs₂ ++ [h], by simp, hu⟩
      · exact ⟨hs, h, [], rfl, u, hu, hf, hc⟩
    · rintro ⟨hs₁, h', hs₂, heq, hu⟩
      -- the header taken is the last one, or one of the run before it
      rcases List.eq_nil_or_concat hs₂ with rfl | ⟨hs₂', x, rfl⟩
      · obtain ⟨rfl, rfl⟩ := List.append_singleton_inj.mp heq
        exact .inr hu
      · rw [List.concat_eq_append, ← List.cons_append, ← List.append_assoc] at heq
        obtain ⟨rfl, rfl⟩ := List.append_singleton_inj.mp heq
        exact .inl ⟨hs₁, h', hs₂', rfl, hu⟩

theorem not_runTakes_of_rejected {h : Header} {rest : List Header}
    (hrej : ∀ c ∈ cs, ∃ f, connectTip h c p = .rejected f) : ¬RunTakes p cs (h :: rest) r := by
  -- after `h`, every candidate has failed
  have hfailed : ∀ hs, ∀ u ∈ connectHeaders (h :: hs) cs p, u.failure.isSome := by
    intro hs u hu
    have hstart : ∀ u ∈ (cs.map start).flatMap (step p h), u.failure.isSome := by
      intro u hu
      obtain ⟨u₀, hu₀, hu⟩ := List.mem_flatMap.mp hu
      obtain ⟨c, hc, rfl⟩ := List.mem_map.mp hu₀
      obtain ⟨f, hf⟩ := hrej c hc
      rw [step_start_of_rejected hf, List.mem_singleton] at hu
      rw [hu]
      rfl
    unfold connectHeaders at hu
    rw [List.foldl_cons, foldl_step_of_failed hs hstart] at hu
    exact hstart u hu
  rintro ⟨hs₁, h', hs₂, heq, u, hu, hf, hc⟩
  cases hs₁ with
  | nil =>
    -- `h` itself: every candidate rejects it
    obtain ⟨rfl, -⟩ := List.cons.inj heq
    obtain ⟨c, hcs, rfl⟩ := List.mem_map.mp hu
    obtain ⟨f, hrj⟩ := hrej c hcs
    rcases hc with hc | ⟨fork, hc⟩ <;> rw [show (start c).chain = c from rfl, hrj] at hc <;> cases hc
  | cons x hs₁ =>
    -- a later header: the candidate had failed on `h`
    obtain ⟨rfl, -⟩ := List.cons.inj heq
    have := hfailed hs₁ u hu
    rw [hf] at this
    cases this

end Run

/-! ## What a batch stores -/

namespace View

def newHeaders (v : View) (n : Node) (hs : List Header) : List Header :=
  freshHeaders n.store (v.chainsIn n) hs

/-- The candidates the new headers of a batch are connected to: the chains of `v`, and the stored
chains ending at the parents of new headers. -/
def batchCandidates (v : View) (n : Node) (hs : List Header) : List Chain :=
  withForkParents n.store v.config.cacheDepth ((v.newHeaders n hs).map (·.hash)) (v.chainsIn n)
    (v.newHeaders n hs)

theorem mem_freshHeaders {s : Store} {cs : List Chain} {hs : List Header} {h : Header}
    (hh : h ∈ freshHeaders s cs hs) : h ∈ hs := by
  unfold freshHeaders at hh
  obtain ⟨q, hq, rfl⟩ := List.mem_map.mp hh
  exact (mem_distinctByHash (List.mem_filter.mp (List.mem_filter.mp hq).1).1).1

theorem foldl_keepFirstKey_head {α : Type} (key : α → Hash256) (a : α) :
    ∀ (xs acc : List α), ∃ rest, xs.foldl (keepFirstKey key) (a :: acc) = a :: rest
  | [], acc => ⟨acc, rfl⟩
  | x :: xs, acc => by
    rw [List.foldl_cons, keepFirstKey]
    split
    · exact foldl_keepFirstKey_head key a xs acc
    · exact foldl_keepFirstKey_head key a xs (acc ++ [x])

theorem freshHeaders_cons {s : Store} {cs : List Chain} {h : Header} {hs : List Header}
    (hc : ∀ c ∈ cs, c.contains h.hash = false) (hst : ∀ r ∈ s.headers, r.hash ≠ h.hash) :
    ∃ rest, freshHeaders s cs (h :: hs) = h :: rest := by
  obtain ⟨D, hD⟩ := foldl_keepFirstKey_head (·.1) (h.hash, h) (hs.map fun h => (h.hash, h)) []
  have hdist : distinctByHash (h :: hs) = (h.hash, h) :: D := by
    unfold distinctByHash firstOfEachKey
    rw [List.map_cons, List.foldl_cons]
    exact hD
  -- no record found by hash carries the first header's hash
  have hstored : ∀ l : List Hash256, ((s.findByHashes l).map (·.hash)).contains h.hash = false := by
    intro l
    rw [Bool.eq_false_iff, ne_eq, List.contains_iff_mem]
    intro hin
    obtain ⟨r, hr, hrh⟩ := List.mem_map.mp hin
    obtain ⟨k, -, hk⟩ := List.mem_filterMap.mp hr
    exact hst r (Store.findByHash_spec hk).2 hrh
  unfold freshHeaders
  rw [hdist, List.filter_cons_of_pos (by simpa [List.any_eq_false] using hc)]
  dsimp only
  rw [List.filter_cons_of_pos (by simp only [hstored, Bool.not_false]), List.map_cons]
  exact ⟨_, rfl⟩

theorem withForkParents_of_known {s : Store} {d : Nat} {batch : List Hash256} {cs : List Chain}
    {hs : List Header} (hk : ∀ h ∈ hs, ∃ c ∈ cs, c.contains h.prevHash = true) :
    withForkParents s d batch cs hs = cs := by
  unfold withForkParents
  refine congrArg Prod.fst (List.foldlRecOn (motive := fun acc => acc = (cs, [])) hs _ rfl ?_)
  intro acc hacc h hh
  subst hacc
  obtain ⟨c, hc, hcp⟩ := hk h hh
  have hany : cs.any (·.contains h.prevHash) = true := List.any_eq_true.mpr ⟨c, hc, hcp⟩
  simp only [hany, Bool.or_true, Bool.true_or, ↓reduceIte]

end View

theorem createAll_gained {p : Params} {s : Store} {cs : List Chain} {d : Nat}
    (hs : HeaderStore p s) (hcs : ∀ c ∈ cs, s.HoldsChain c) (hb : List Header)
    (le : BlockRecord → BlockRecord → Bool) :
    ∃ s', s.createAll ((View.connectedRecords (connectHeaders (View.freshHeaders s cs hb)
      (View.withForkParents s d ((View.freshHeaders s cs hb).map (·.hash)) cs
        (View.freshHeaders s cs hb)) p)).mergeSort le) = .ok s' := by
  have hvalid := updatesValid_batch (d := d) hs hcs hb
  unfold Store.createAll
  rw [List.find?_eq_none.mpr fun r hr => ?_]
  · exact ⟨_, rfl⟩
  · -- a gained record is the record of a new header, whose hash no stored record has
    obtain ⟨hhead, -⟩ := hvalid.accepted r (View.mem_connectedRecords (List.mem_mergeSort.mp hr))
    have hnew := (View.freshHeaders_spec s cs hb).2 r.header hhead
    simp only [Store.findByHash, List.find?_isSome, beq_iff_eq]
    rintro ⟨x, hx, hxr⟩
    exact hnew x hx (hxr.trans r.hash_eq)

namespace NodeStep

variable {config : Config} {n : Node} {vs : List View} {v : View}

theorem processHeaders_stores_taken (hv : Valid config ⟨n, vs⟩) (hvm : v ∈ vs) (hs : List Header) :
    (∀ e n', processHeaders v hs n = .error e n' →
      n' = n ∧ ∀ r, ¬RunTakes v.params (v.batchCandidates n hs) (v.newHeaders n hs) r) ∧
    ∀ v' n', processHeaders v hs n = .ok v' n' → ∀ r, r ∈ n'.store.headers ↔
      r ∈ n.store.headers ∨ RunTakes v.params (v.batchCandidates n hs) (v.newHeaders n hs) r := by
  obtain ⟨hconf, -, -⟩ := hv.views v hvm
  subst hconf
  have hcs := hv.chainsIn_holds hvm
  have hvalid := updatesValid_batch (d := v.config.cacheDepth) hv.headers hcs hs
  have hiff : ∀ r, r ∈ allConnected (connectHeaders (View.freshHeaders n.store (v.chainsIn n) hs)
      (View.withForkParents n.store v.config.cacheDepth
        ((View.freshHeaders n.store (v.chainsIn n) hs).map (·.hash)) (v.chainsIn n)
        (View.freshHeaders n.store (v.chainsIn n) hs)) v.params) ↔
      RunTakes v.params (v.batchCandidates n hs) (v.newHeaders n hs) r :=
    fun r => mem_allConnected_connectHeaders _
  obtain ⟨s', hc⟩ := createAll_gained (p := v.params) (s := n.store) (d := v.config.cacheDepth)
    hv.headers hcs hs
    fun a b => decide (a.height ≤ b.height)
  constructor
  · intro e n' h
    refine ⟨processHeaders_error h, fun r hr => ?_⟩
    rw [processHeaders_apply] at h
    dsimp only at h
    -- the batch failed: it had no new header, or gained nothing; the write cannot fail
    split at h
    · cases h
    split at h
    · rename_i hfresh
      obtain ⟨hs₁, x, hs₂, heq, -⟩ := hr
      rw [View.newHeaders, List.isEmpty_iff.mp hfresh] at heq
      simp at heq
    split at h
    · rename_i hnone
      obtain ⟨r', hr', -⟩ := View.exists_connectedRecords ((hiff r).mpr hr)
      rw [List.isEmpty_iff.mp hnone] at hr'
      cases hr'
    split at h
    · rename_i m hm
      rw [hc] at hm
      cases hm
    · cases h
  · intro v' n' h r
    rcases processHeaders_ok h with ⟨rfl, -, hn⟩ | ⟨s'', hc', -, rfl⟩
    · -- an empty batch has no new header
      have hnil : v.newHeaders n [] = [] := rfl
      rw [hn]
      simp only [hnil, RunTakes, List.nil_eq_append_iff, reduceCtorEq, and_false, false_and,
        exists_false, or_false]
    · exact ((createAll_connected hvalid hc').1 r).trans (or_congr_right (hiff r))

end NodeStep

/-- In every reachable state, through any view, adding a batch of headers stores, besides what was
stored, exactly the records a candidate takes for the batch's new headers: a header is taken when,
at its turn, a candidate that has rejected none of the new headers before it accepts it on its tip
or as a fork. A batch that fails leaves the node as it was, and no header of it was taken. -/
theorem header_batch_stores_taken_records {config : Config} {h : Handler}
    (hr : Reachable config h) {v : View} (hvm : v ∈ h.views) (hs : List Header) :
    (∀ e n', NodeStep.processHeaders v hs h.node = .error e n' →
      n' = h.node ∧ ∀ r, ¬RunTakes v.params (v.batchCandidates h.node hs) (v.newHeaders h.node hs) r) ∧
    ∀ v' n', NodeStep.processHeaders v hs h.node = .ok v' n' → ∀ r, r ∈ n'.store.headers ↔
      r ∈ h.node.store.headers ∨
        RunTakes v.params (v.batchCandidates h.node hs) (v.newHeaders h.node hs) r :=
  NodeStep.processHeaders_stores_taken hr.valid hvm hs

/-! ## A rejected header ahead of a valid one -/

/-- A header on the regtest genesis block that asks for the main network's target instead of the
test network's. -/
def wrongTargetSibling : Header :=
  ⟨0x20000000, Network.regtest.params.genesisHash, Hash256.replicate 5, 1296689202, 0x1d00ffff, 0⟩

theorem regtest_genesisHash_eq :
    Network.regtest.params.genesisHash = (BlockRecord.genesis Config.forTesting.params).hash := rfl

theorem forTesting_chains : (View.opened Config.forTesting).chains =
    [Chain.single (BlockRecord.genesis Config.forTesting.params)] := by
  have hz : (Hash256.zero == (BlockRecord.genesis Config.forTesting.params).hash) = false := by
    rw [beq_eq_false_iff_ne]
    exact Ne.symm regtestGenesis_hash_ne_zero
  have hprev : (BlockRecord.genesis Config.forTesting.params).header.prevHash = Hash256.zero := rfl
  have h0 : (BlockRecord.genesis Config.forTesting.params).height = 0 := rfl
  have hd : Config.forTesting.cacheDepth = 2016 := rfl
  simp only [View.opened, Node.opened, Store.blockchains, Store.chainTips, Store.putHeader,
    Store.empty]
  -- the genesis block has no child, so it is the one tip, and its chain is itself
  simp only [List.filter_nil, List.nil_append, List.any_cons, List.any_nil, BlockRecord.prevHash,
    hprev, hz, Bool.or_false, Bool.not_false, List.filter_cons_of_pos, List.mergeSort_singleton,
    List.map_cons, List.map_nil]
  simp [Store.chainTo, Chain.walkBack, hd, Chain.walkFrom, h0, Chain.single]

theorem forTesting_genesis_fields :
    (BlockRecord.genesis Config.forTesting.params).header.bits = 0x207fffff ∧
    (BlockRecord.genesis Config.forTesting.params).header.timestamp = 1296688602 ∧
    (BlockRecord.genesis Config.forTesting.params).height = 0 ∧
    Config.forTesting.params.interval = 2016 ∧ Config.forTesting.params.allowMinDifficulty = true ∧
    Config.forTesting.params.spacing = 600 :=
  ⟨rfl, rfl, rfl, rfl, rfl, rfl⟩

theorem checkNewTip_forTesting_genesis (hdr : Header)
    (hprev : hdr.prevHash = (BlockRecord.genesis Config.forTesting.params).hash)
    (htime : hdr.timestamp.toNat ≤ 1296688602 + 2 * 600) :
    checkNewTip hdr (Chain.single (BlockRecord.genesis Config.forTesting.params))
      Config.forTesting.params =
      if (0x207fffff : UInt32) ≠ hdr.bits then .badPow hdr
      else checkNewTip.checkWork hdr (BlockRecord.genesis Config.forTesting.params)
        Config.forTesting.params := by
  obtain ⟨hb, ht, h0, hi, hamd, hsp⟩ := forTesting_genesis_fields
  -- below the first retarget and not late, the rule falls back to the genesis block's own bits
  have hlate : ¬1296688602 + 2 * 600 < hdr.timestamp.toNat := by omega
  simp [checkNewTip, Chain.single, Chain.tip?, nextWorkRequired, lastRealBits, hprev, hb, ht, h0,
    hi, hamd, hsp, hlate]

theorem wrongTargetSibling_badPow : checkNewTip wrongTargetSibling
    (Chain.single (BlockRecord.genesis Config.forTesting.params)) Config.forTesting.params =
      .badPow wrongTargetSibling := by
  rw [checkNewTip_forTesting_genesis _ rfl (by decide), if_pos (by decide)]

theorem siblings_genesis_hash_facts :
    (BlockRecord.genesis Config.forTesting.params).hash ≠ wrongTargetSibling.hash ∧
    (BlockRecord.genesis Config.forTesting.params).hash ≠ siblingA.hash ∧
    checkProofOfWork siblingA Config.forTesting.params = .ok true := by
  refine ⟨?_, ?_, ?_⟩
  · -- the one hash not computed before
    rw [forTesting_genesis_hash, wrongTargetSibling, regtest_genesisHash_value]
    decide +kernel
  · rw [forTesting_genesis_hash, siblingA_hash]
    decide
  · simp only [checkProofOfWork, siblingA_hash]
    decide

theorem siblingA_connects : checkNewTip siblingA
    (Chain.single (BlockRecord.genesis Config.forTesting.params)) Config.forTesting.params =
      .connected ((BlockRecord.genesis Config.forTesting.params).child siblingA) := by
  rw [checkNewTip_forTesting_genesis _ rfl (by decide), if_neg (by decide), checkNewTip.checkWork,
    siblings_genesis_hash_facts.2.2]

/-- A batch whose first header the test handler's only candidate rejects keeps nothing of it,
though its second header is new and the tip check accepts it on the stored genesis block. -/
theorem rejected_header_blocks_valid_sibling :
    (∀ r ∈ (Node.opened Config.forTesting).store.headers, r.hash ≠ siblingA.hash) ∧
    checkNewTip siblingA (Chain.single (BlockRecord.genesis Config.forTesting.params))
      Config.forTesting.params = .connected ((BlockRecord.genesis Config.forTesting.params).child siblingA) ∧
    checkNewTip wrongTargetSibling (Chain.single (BlockRecord.genesis Config.forTesting.params))
      Config.forTesting.params = .badPow wrongTargetSibling ∧
    ∀ r ∈ (Handler.serveLatest ⟨Node.opened Config.forTesting, [View.opened Config.forTesting]⟩
      (.headers [wrongTargetSibling, siblingA])).node.store.headers, r.header ≠ siblingA := by
  obtain ⟨hGw, hGa, -⟩ := siblings_genesis_hash_facts
  have hstore : (Node.opened Config.forTesting).store.headers =
      [BlockRecord.genesis Config.forTesting.params] := rfl
  have hchains : (View.opened Config.forTesting).chainsIn (Node.opened Config.forTesting) =
      [Chain.single (BlockRecord.genesis Config.forTesting.params)] := by
    rw [View.chainsIn, if_neg (by decide)]
    exact forTesting_chains
  -- the genesis record is not the sibling's
  have hGne : (BlockRecord.genesis Config.forTesting.params).header ≠ siblingA := by decide
  refine ⟨by simpa [hstore] using hGa, siblingA_connects, wrongTargetSibling_badPow, ?_⟩
  -- the rejected header heads the new headers, and no stored chain joins the candidates
  obtain ⟨rest, hfresh⟩ : ∃ rest, (View.opened Config.forTesting).newHeaders
      (Node.opened Config.forTesting) [wrongTargetSibling, siblingA] = wrongTargetSibling :: rest := by
    refine View.freshHeaders_cons (fun c hc => ?_) (fun r hr => ?_)
    · rw [hchains, List.mem_singleton] at hc
      subst hc
      simpa [Chain.single, Chain.contains] using hGw
    · rw [hstore, List.mem_singleton] at hr
      subst hr
      exact hGw
  have hcands : (View.opened Config.forTesting).batchCandidates (Node.opened Config.forTesting)
      [wrongTargetSibling, siblingA] =
      [Chain.single (BlockRecord.genesis Config.forTesting.params)] := by
    -- both headers build on the genesis block, which the one candidate holds
    have hk : ∀ x ∈ (View.opened Config.forTesting).newHeaders (Node.opened Config.forTesting)
        [wrongTargetSibling, siblingA], ∃ c ∈ (View.opened Config.forTesting).chainsIn
          (Node.opened Config.forTesting), c.contains x.prevHash = true := by
      intro x hx
      have hx' := View.mem_freshHeaders hx
      rw [hchains]
      refine ⟨_, List.mem_singleton_self _, ?_⟩
      simp only [List.mem_cons, List.not_mem_nil, or_false] at hx'
      rcases hx' with rfl | rfl <;>
        simp [Chain.single, Chain.contains, wrongTargetSibling, siblingA, regtest_genesisHash_eq]
    rw [View.batchCandidates, View.withForkParents_of_known hk, hchains]
  have hnone : ∀ r, ¬RunTakes (View.opened Config.forTesting).params
      ((View.opened Config.forTesting).batchCandidates (Node.opened Config.forTesting)
        [wrongTargetSibling, siblingA])
      ((View.opened Config.forTesting).newHeaders (Node.opened Config.forTesting)
        [wrongTargetSibling, siblingA]) r := by
    intro r
    rw [hcands, hfresh]
    refine not_runTakes_of_rejected fun c hc => ⟨.badPow wrongTargetSibling, ?_⟩
    rw [List.mem_singleton] at hc
    subst hc
    have htip : (Chain.single (BlockRecord.genesis Config.forTesting.params)).tip? =
        some (BlockRecord.genesis Config.forTesting.params) := rfl
    have hprev : wrongTargetSibling.prevHash = (BlockRecord.genesis Config.forTesting.params).hash :=
      rfl
    rw [connectTip_eq, htip, hprev,
      show (View.opened Config.forTesting).params = Config.forTesting.params from rfl]
    simp only [Option.map_some, beq_self_eq_true, Option.getD_some, if_true,
      wrongTargetSibling_badPow]
  have hreach : Reachable Config.forTesting
      ⟨Node.opened Config.forTesting, [View.opened Config.forTesting]⟩ := Reachable.start rfl
  obtain ⟨-, hok⟩ := NodeStep.processHeaders_stores_taken hreach.valid
    (List.mem_singleton_self _) [wrongTargetSibling, siblingA]
  have hlatest : Handler.serveLatest ⟨Node.opened Config.forTesting, [View.opened Config.forTesting]⟩
      (.headers [wrongTargetSibling, siblingA]) =
      Handler.serve ⟨Node.opened Config.forTesting, [View.opened Config.forTesting]⟩
        (.headers [wrongTargetSibling, siblingA]) (View.opened Config.forTesting) := rfl
  intro r hr
  rw [hlatest] at hr
  -- whether the batch went through or failed, the record was stored before
  have hkept : r ∈ (Node.opened Config.forTesting).store.headers := by
    rcases Handler.serve_cases _ (.headers [wrongTargetSibling, siblingA])
      (View.opened Config.forTesting) hreach.valid.headers.lowestNoWorkHeight_eq_none with
      ⟨v', n', hrun, heq⟩ | heq
    · rw [heq] at hr
      exact ((hok v' n' hrun r).mp hr).resolve_right (hnone r)
    · rwa [heq] at hr
  rw [hstore, List.mem_singleton] at hkept
  rw [hkept]
  exact hGne

end BitcoinLight
