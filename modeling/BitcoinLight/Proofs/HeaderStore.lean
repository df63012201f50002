import BitcoinLight.Proofs.HeaderBatch
import BitcoinLight.Proofs.StoreWrites
import BitcoinLight.Node.Work
import BitcoinLight.Proofs.TargetWork

set_option autoImplicit false

/-!
# The header store

What the store of block records holds in every state a handler reaches (`HeaderStore`): each
hash once; the network's genesis record, and no other record at height zero; and for every other
record a stored parent on which it was accepted. Every stored header then meets its own target
and has positive chain work, so a recalculation of chain work finds nothing to do.

Adding a batch of headers keeps `HeaderStore`: the records written are those the candidates
gained, each on a stored record or on one gained before it. The pruned candidates are stored
chains, and the chain tips of the store are their tips.
-/

namespace BitcoinLight

/-! ## Work of a header that meets its target -/

theorem blockProof_pos {h : Header} {p : Params} {b : Bool} (hp : checkProofOfWork h p = .ok b) :
    0 < Work.blockProof h.bits := by
  unfold checkProofOfWork at hp
  have hvalid : (Work.expandTarget h.bits).valid = true := by
    by_contra hv
    rw [Bool.not_eq_true] at hv
    simp [hv] at hp
  rw [Work.blockProof_eq, if_pos hvalid]
  exact Nat.div_pos (Work.expandTarget_target_lt h.bits) (Nat.succ_pos _)

theorem addWork_pos (a : Nat) {b : Nat} (hb : 0 < b) : 0 < Work.addWork a b := by
  unfold Work.addWork Work.maxU256
  have : 0 < 2 ^ 256 - 1 := Nat.sub_pos_of_lt (Nat.one_lt_two_pow (by decide))
  omega

theorem genesis_pow (n : Network) : checkProofOfWork n.params.genesis n.params = .ok true := by
  have h : (checkProofOfWork n.params.genesis n.params).toOption = some true := by
    cases n <;> decide +kernel
  revert h
  cases checkProofOfWork n.params.genesis n.params <;> simp [Except.toOption]

/-! ## The invariant -/

/-- What the store of block records holds in every state a handler reaches. -/
structure HeaderStore (p : Params) (s : Store) : Prop where
  nodup : (s.headers.map (·.hash)).Nodup
  genesis_mem : BlockRecord.genesis p ∈ s.headers
  eq_genesis : ∀ r ∈ s.headers, r.height = 0 → r = BlockRecord.genesis p
  parent : ∀ r ∈ s.headers, 0 < r.height → ∃ q ∈ s.headers, Accepted p q r

namespace HeaderStore

variable {p : Params} {s : Store}

theorem eq_of_hash_eq (hs : HeaderStore p s) {a b : BlockRecord} (ha : a ∈ s.headers)
    (hb : b ∈ s.headers) (h : a.hash = b.hash) : a = b :=
  List.inj_on_of_nodup_map hs.nodup ha hb h

theorem hasParents (hs : HeaderStore p s) :
    ∀ r ∈ s.headers, 0 < r.height → ∃ q ∈ s.headers, Follows q r := fun r hr h0 =>
  (hs.parent r hr h0).imp fun _ hq => ⟨hq.1, hq.2.follows⟩

theorem genesis (p : Params) : HeaderStore p (Store.empty.putHeader (BlockRecord.genesis p)) where
  nodup := by simp [Store.empty]
  genesis_mem := by simp
  eq_genesis r hr _ := by simpa [Store.empty] using hr
  parent r hr h0 := by
    simp only [Store.putHeader_headers, Store.empty, List.filter_nil, List.mem_singleton] at hr
    subst hr
    exact absurd h0 (Nat.lt_irrefl 0)

theorem pow {net : Network} (hs : HeaderStore net.params s) :
    ∀ r ∈ s.headers, checkProofOfWork r.header net.params = .ok true := by
  intro r hr
  by_cases h0 : r.height = 0
  · rw [hs.eq_genesis r hr h0]
    exact genesis_pow net
  · obtain ⟨q, -, ha⟩ := hs.parent r hr (Nat.pos_of_ne_zero h0)
    exact ha.pow

theorem work_pos {net : Network} (hs : HeaderStore net.params s) : ∀ r ∈ s.headers, 0 < r.work := by
  intro r hr
  by_cases h0 : r.height = 0
  · rw [hs.eq_genesis r hr h0]
    exact blockProof_pos (genesis_pow net)
  · obtain ⟨q, -, ha⟩ := hs.parent r hr (Nat.pos_of_ne_zero h0)
    rw [ha.work_eq]
    exact addWork_pos _ (blockProof_pos ha.pow)

theorem lowestNoWorkHeight_eq_none {net : Network} (hs : HeaderStore net.params s) :
    s.lowestNoWorkHeight = none := by
  unfold Store.lowestNoWorkHeight
  rw [List.min?_eq_none_iff, List.map_eq_nil_iff, List.filter_eq_nil_iff]
  intro e _
  rcases hf : s.findByHash e.2 with _ | r
  · simp
  · have := hs.work_pos r (Store.findByHash_spec hf).2
    simp only [Option.any_some, beq_iff_eq]
    omega

end HeaderStore

/-! ## Adding a batch of headers -/

section Batch

open ChainUpdate

variable {p : Params} {s s' : Store} {cs : List Chain} {d : Nat} {us : List ChainUpdate}

theorem holdsChain_withForkParents (hcs : ∀ c ∈ cs, s.HoldsChain c) {batch : List Hash256}
    {hs : List Header} : ∀ c ∈ View.withForkParents s d batch cs hs, s.HoldsChain c := by
  intro c hc
  rcases View.mem_withForkParents hc with hc | ⟨h, r, hr, rfl⟩
  · exact hcs c hc
  · exact Store.holdsChain_chainTo (Store.findByHash_spec hr).2 d

theorem updatesValid_batch (hs : HeaderStore p s) (hcs : ∀ c ∈ cs, s.HoldsChain c)
    (hb : List Header) :
    UpdatesValid p s.headers (View.freshHeaders s cs hb)
      (connectHeaders (View.freshHeaders s cs hb) (View.withForkParents s d
        ((View.freshHeaders s cs hb).map (·.hash)) cs (View.freshHeaders s cs hb)) p) :=
  connectHeaders_valid (fun c hc => (holdsChain_withForkParents hcs c hc).1)
    (fun c hc => (holdsChain_withForkParents hcs c hc).2) (fun _ ha _ hb => hs.eq_of_hash_eq ha hb)
    (View.freshHeaders_spec s cs hb).1 (View.freshHeaders_spec s cs hb).2

theorem createAll_connected {done : List Header} (hv : UpdatesValid p s.headers done us)
    {le : BlockRecord → BlockRecord → Bool}
    (hc : s.createAll ((View.connectedRecords us).mergeSort le) = .ok s') :
    (∀ x, x ∈ s'.headers ↔ x ∈ s.headers ∨ x ∈ allConnected us) ∧
      ((s.headers.map (·.hash)).Nodup → (s'.headers.map (·.hash)).Nodup) := by
  obtain ⟨rfl, hnew⟩ := Store.createAll_ok hc
  refine ⟨fun x => ?_, Store.nodup_foldl_putHeader _ s⟩
  have hnd := ((List.mergeSort_perm _ le).map (·.hash)).nodup_iff.mpr
    (View.nodup_connectedRecords us)
  rw [mem_foldl_write BlockRecord.hash Store.headers Store.putHeader
    (fun _ _ _ => Store.mem_putHeader) _ s hnd hnew x, List.mem_mergeSort]
  -- a gained record is the record kept for its hash, since known records differ in hash
  refine or_congr_right ⟨View.mem_connectedRecords, fun hx => ?_⟩
  obtain ⟨x', hx', hh⟩ := View.exists_connectedRecords hx
  rwa [hv.consistent x' x (.inr (View.mem_connectedRecords hx')) (.inr hx) hh] at hx'

theorem HeaderStore.write {done : List Header} (hs : HeaderStore p s)
    (hv : UpdatesValid p s.headers done us)
    (hmem : ∀ x, x ∈ s'.headers ↔ x ∈ s.headers ∨ x ∈ allConnected us)
    (hnd : (s'.headers.map (·.hash)).Nodup) : HeaderStore p s' where
  nodup := hnd
  genesis_mem := (hmem _).mpr (.inl hs.genesis_mem)
  eq_genesis r hr h0 := by
    rcases (hmem r).mp hr with hr | hr
    · exact hs.eq_genesis r hr h0
    · obtain ⟨-, q, -, ha⟩ := hv.accepted r hr
      exact absurd (ha.height_eq ▸ h0) (Nat.succ_ne_zero _)
  parent r hr h0 := by
    rcases (hmem r).mp hr with hr | hr
    · obtain ⟨q, hq, ha⟩ := hs.parent r hr h0
      exact ⟨q, (hmem q).mpr (.inl hq), ha⟩
    · obtain ⟨-, q, hq, ha⟩ := hv.accepted r hr
      exact ⟨q, (hmem q).mpr hq, ha⟩

theorem holdsChain_pruneChains {done : List Header} (hv : UpdatesValid p s.headers done us)
    (hmem : ∀ x, x ∈ s'.headers ↔ x ∈ s.headers ∨ x ∈ allConnected us) :
    ∀ c ∈ View.pruneChains d (us.map (·.chain)), s'.HoldsChain c := by
  intro c hc
  obtain ⟨c', hc', rfl⟩ := View.mem_pruneChains hc
  obtain ⟨u, hu, rfl⟩ := List.mem_map.mp hc'
  exact ⟨Chain.linked_trim (hv.linked u hu) d,
    fun r hr => (hmem r).mpr (hv.known u hu r (Chain.mem_of_mem_trim hr))⟩

/-- Every chain tip of the new store is the tip of a pruned candidate: an old tip stays the tip
of its candidate unless a gained record builds on it, and a gained record is the tip of the
candidate that gained it unless another builds on it. -/
theorem pruneChains_covers {done : List Header} {T : BlockRecord → Prop} (hd : 0 < d)
    (hv : UpdatesValid p s.headers done us)
    (hmem : ∀ x, x ∈ s'.headers ↔ x ∈ s.headers ∨ x ∈ allConnected us)
    (hnd : (s'.headers.map (·.hash)).Nodup) (ho : TipsOpen T us)
    (hT : ∀ t ∈ s'.chainTips, t ∈ s.headers → T t) :
    ∀ t ∈ s'.chainTips, ∃ c ∈ View.pruneChains d (us.map (·.chain)), c.tip? = some t := by
  intro t ht
  obtain ⟨hts, hnot⟩ := Store.mem_chainTips.mp ht
  obtain ⟨u, hu, htip⟩ : ∃ u ∈ us, u.chain.tip? = some t := by
    have hT' : T t ∨ t ∈ allConnected us := ((hmem t).mp hts).imp (hT t ht) id
    rcases ho t hT' with h | ⟨r, hr, hprev⟩
    · exact h
    · exact absurd hprev (hnot r ((hmem r).mpr (.inr hr)))
  -- a candidate holding the tip's hash ends there: a record after it would build on a tip
  have hext : ∀ o ∈ us.map (·.chain), o.contains t.hash = true →
      o.tip?.map (·.hash) = some t.hash := by
    intro o ho hc
    obtain ⟨u', hu', rfl⟩ := List.mem_map.mp ho
    obtain ⟨x, hx, hxh⟩ : ∃ x ∈ u'.chain.records, x.hash = t.hash := by
      simpa [Chain.contains] using hc
    by_contra hne
    obtain ⟨y, hy, hf⟩ := (hv.linked u' hu').exists_follows hx (by rwa [hxh])
    exact hnot y ((hmem y).mpr (hv.known u' hu' y hy)) (hf.2.trans hxh)
  obtain ⟨c, hc, hch⟩ := View.exists_pruneChains_tip hd (List.mem_map_of_mem hu) htip hext
  obtain ⟨t', ht', hth⟩ := Option.map_eq_some_iff.mp hch
  have ht's : t' ∈ s'.headers :=
    (holdsChain_pruneChains hv hmem c hc).2 t' (List.mem_of_getLast? ht')
  exact ⟨c, hc, by rw [ht', List.inj_on_of_nodup_map hnd ht's hts hth]⟩

end Batch

end BitcoinLight
