import BitcoinLight.Proofs.BatchRanges

set_option autoImplicit false

/-!
# Filter data served again

A request whose filter data the store already holds, with the same hashes, succeeds and writes and
announces nothing. An accepted request leaves the store holding its own data in just that way:
each block of an accepted run of filter headers has a record with the hash the run gives it, and
each block of accepted filters has a filter. So serving the same data again, or only the later
links of the run, or only some of the filters, succeeds and changes nothing.

The later links of a run must reach the later blocks of the run. They do, because the chain ending
at a block, as long as a linked run of stored blocks ending there, is that run, whether a
candidate chain or the store supplies it.
-/

namespace BitcoinLight

theorem foldlM_ok_step {α β ε : Type} {f : β → α → Except ε β} :
    ∀ {xs : List α} {a r : β}, xs.foldlM f a = .ok r → ∀ x ∈ xs, ∃ b c, f b x = .ok c
  | [], _, _, _ => by simp
  | x :: xs, a, r, h => by
    simp only [List.foldlM_cons, bind, Except.bind] at h
    rcases hx : f a x with e | b
    · simp [hx] at h
    simp only [hx] at h
    intro y hy
    rcases List.mem_cons.mp hy with rfl | hy
    · exact ⟨a, b, hx⟩
    · exact foldlM_ok_step h y hy

theorem mapM_ok_of_mem {α β ε : Type} {g : α → Except ε β} :
    ∀ {xs : List α} {ys : List β}, xs.mapM g = .ok ys → ∀ x ∈ xs, ∃ y ∈ ys, g x = .ok y
  | [], _, _ => by simp
  | x :: xs, ys, h => by
    simp only [List.mapM_cons, bind, Except.bind] at h
    rcases hx : g x with e | y
    · simp [hx] at h
    rcases hxs : xs.mapM g with e | ys'
    · simp [hx, hxs] at h
    simp only [hx, hxs, pure, Except.pure, Except.ok.injEq] at h
    subst h
    intro z hz
    rcases List.mem_cons.mp hz with rfl | hz
    · exact ⟨y, List.mem_cons_self, hx⟩
    · obtain ⟨y', hy', hg⟩ := mapM_ok_of_mem hxs z hz
      exact ⟨y', List.mem_cons_of_mem _ hy', hg⟩

namespace Store

variable {s : Store}

theorem filterOf_isSome_iff {b : Hash256} :
    (s.filterOf b).isSome ↔ b ∈ s.filters.map (·.blockHash) := by
  simp [filterOf, List.find?_isSome]

theorem blockHash_mem_foldl_putFilter : ∀ (fs : List FilterRecord) (s : Store) (b : Hash256),
    b ∈ (fs.foldl putFilter s).filters.map (·.blockHash) ↔
      b ∈ s.filters.map (·.blockHash) ∨ b ∈ fs.map (·.blockHash)
  | [], _, _ => by simp
  | f :: fs, s, b => by
    rw [List.foldl_cons, blockHash_mem_foldl_putFilter fs (s.putFilter f) b]
    -- writing `f` replaces its block's filter and keeps the others
    by_cases hb : b = f.blockHash
    · simp [putFilter, hb]
    · simp only [putFilter, List.map_cons, List.mem_cons, hb, false_or, List.mem_map,
        List.mem_filter, bne_iff_ne, ne_eq]
      constructor
      · rintro (⟨a, ⟨ha, -⟩, hab⟩ | hfs)
        · exact .inl ⟨a, ha, hab⟩
        · exact .inr hfs
      · rintro (⟨a, ha, hab⟩ | hfs)
        · exact .inl ⟨a, ⟨ha, fun h => hb (hab ▸ h)⟩, hab⟩
        · exact .inr hfs

end Store

namespace View

variable {s : Store} {v : View}

theorem repeatedBlock_go_eq_none : ∀ (ms : List FilterMessage) (seen : List Hash256),
    repeatedBlock.go seen ms = none → (ms.map (·.blockHash)).Nodup ∧ ∀ m ∈ ms, m.blockHash ∉ seen
  | [], _, _ => by simp
  | m :: ms, seen, h => by
    rw [repeatedBlock.go] at h
    split at h
    · cases h
    rename_i hm
    obtain ⟨hnd, hnew⟩ := repeatedBlock_go_eq_none ms _ h
    refine ⟨List.nodup_cons.mpr ⟨fun hin => ?_, hnd⟩, fun m' hm' hin => ?_⟩
    · obtain ⟨m', hm', he⟩ := List.mem_map.mp hin
      exact hnew m' hm' (he ▸ List.mem_cons_self)
    · rcases List.mem_cons.mp hm' with rfl | hm'
      · simp [hin] at hm
      · exact hnew m' hm' (List.mem_cons_of_mem _ hin)

theorem repeatedBlock_eq_none_iff {ms : List FilterMessage} :
    repeatedBlock ms = none ↔ (ms.map (·.blockHash)).Nodup :=
  ⟨fun h => (repeatedBlock_go_eq_none ms [] h).1, repeatedBlock_eq_none⟩

theorem addNewFilterHeader_same {acc r : List FilterHeaderRecord} {f : FilterHeaderRecord}
    (h : addNewFilterHeader s acc f = .ok r) :
    ∀ e, s.filterHeaderOf f.blockHash = some e → e.hash = f.hash := by
  intro e he
  unfold addNewFilterHeader at h
  rw [he] at h
  dsimp only at h
  split at h
  · assumption
  · cases h

theorem newFilterHeaders_same {batch fresh : List FilterHeaderRecord}
    (h : newFilterHeaders s batch = .ok fresh) :
    ∀ f ∈ batch, ∀ e, s.filterHeaderOf f.blockHash = some e → e.hash = f.hash := by
  intro f hf
  obtain ⟨acc, r, hstep⟩ := foldlM_ok_step h f hf
  exact addNewFilterHeader_same hstep

theorem filterHeaderOf_foldl_newFilterHeaders (hf : FilterStore s)
    {batch fresh : List FilterHeaderRecord} (hnd : (batch.map (·.blockHash)).Nodup)
    (h : newFilterHeaders s batch = .ok fresh) :
    ∀ f ∈ batch, ∃ e, (fresh.foldl Store.putFilterHeader s).filterHeaderOf f.blockHash = some e ∧
      e.hash = f.hash := by
  have hsame := newFilterHeaders_same h
  obtain rfl : fresh = batch.filter fun f => (s.filterHeaderOf f.blockHash).isNone :=
    Except.ok.inj (h.symm.trans (newFilterHeaders_eq hsame))
  exact filterHeaderOf_foldl_fresh hf hnd hsame

theorem requireHeader_mem (hcs : ∀ c ∈ v.chains, s.HoldsChain c) {h : Hash256} {b : BlockRecord}
    (hb : v.requireHeader s h = .ok b) : b ∈ s.headers := by
  rcases (requireHeader_ok hb).2 with ⟨c, hc, hbc⟩ | hbs
  · exact (hcs c hc).2 b hbc
  · exact hbs

theorem filterHeaderBatch_drop {links : List FilterHeader} {c c' : Chain} {k : Nat}
    (hc : c'.records = c.records.drop k) :
    filterHeaderBatch (links.drop k) c' = (filterHeaderBatch links c).drop k := by
  unfold filterHeaderBatch
  rw [hc, ← List.map_drop]
  exact congrArg _ List.drop_zipWith.symm

theorem chainEndingAt_eq_drop (hcs : ∀ c ∈ v.chains, s.HoldsChain c)
    (hnd : (s.headers.map (·.hash)).Nodup) (hcov : s.IndexCovers)
    (hpar : ∀ r ∈ s.headers, 0 < r.height → ∃ p ∈ s.headers, Follows p r)
    {c : Chain} (hc : s.HoldsChain c) {stop : BlockRecord} (htip : c.tip? = some stop)
    (h32 : stop.height < 2 ^ 32) {k : Nat} (hk : k < c.length) :
    (v.chainEndingAt s stop (c.length - k)).records = c.records.drop k := by
  have hlast : (c.records.drop k).getLast? = some stop := by
    rw [List.getLast?_drop, if_neg (by simp only [Chain.length] at hk; omega)]
    exact htip
  have := chainEndingAt_records (v := v) hcs hnd hcov hpar (hc.1.drop k)
    (fun b hb => hc.2 b (List.mem_of_mem_drop hb)) hlast h32
  rwa [List.length_drop] at this

end View

namespace NodeStep

variable {v v' : View} {n n' : Node}

theorem processFilterHeaders_ok_run {links : List FilterHeader} {stop : Hash256}
    (h : processFilterHeaders v links stop n = .ok v' n') (hne : links ≠ []) :
    v' = v ∧ ∃ b, v.requireHeader n.store stop = .ok b ∧
      (v.chainEndingAt n.store b links.length).length = links.length ∧
      ∃ fresh, View.newFilterHeaders n.store
          (View.filterHeaderBatch links (v.chainEndingAt n.store b links.length)) = .ok fresh ∧
        n'.store = fresh.foldl Store.putFilterHeader n.store := by
  obtain ⟨rfl, ⟨hnil, -⟩ | ⟨b, hb, hlen, fresh, hnew, hn⟩⟩ := processFilterHeaders_ok_steps h
  · exact absurd hnil hne
  refine ⟨rfl, b, hb, hlen, fresh, hnew, ?_⟩
  rcases hn with ⟨rfl, rfl⟩ | ⟨-, -, s', hcr, rfl⟩
  · -- nothing new: the node is left as it was
    rfl
  · exact (Store.createFilterHeaders_ok hcr).1

theorem processFilterHeaders_of_stored {links : List FilterHeader} {stop : Hash256}
    {b : BlockRecord} (hb : v.requireHeader n.store stop = .ok b)
    (hlen : (v.chainEndingAt n.store b links.length).length = links.length)
    (hstored : ∀ f ∈ View.filterHeaderBatch links (v.chainEndingAt n.store b links.length),
      ∃ e, n.store.filterHeaderOf f.blockHash = some e ∧ e.hash = f.hash) :
    processFilterHeaders v links stop n = .ok v n := by
  have hsame : ∀ f ∈ View.filterHeaderBatch links (v.chainEndingAt n.store b links.length), ∀ e,
      n.store.filterHeaderOf f.blockHash = some e → e.hash = f.hash := by
    intro f hf e he
    obtain ⟨e', he', hh⟩ := hstored f hf
    rw [he] at he'
    cases he'
    exact hh
  have hnone : (View.filterHeaderBatch links (v.chainEndingAt n.store b links.length)).filter
      (fun f => (n.store.filterHeaderOf f.blockHash).isNone) = [] := by
    refine List.filter_eq_nil_iff.mpr fun f hf => ?_
    obtain ⟨e, he, -⟩ := hstored f hf
    simp [he]
  rw [processFilterHeaders_apply]
  split
  · rfl
  rw [hb]
  dsimp only
  rw [if_neg (not_not.mpr hlen), View.newFilterHeaders_eq hsame, hnone]
  rfl

theorem processFilters_of_stored {ms : List FilterMessage} (hnd : (ms.map (·.blockHash)).Nodup)
    (hstored : ∀ m ∈ ms, (n.store.filterOf m.blockHash).isSome) :
    processFilters v ms n = .ok v n := by
  have hpending : (ms.filter fun m =>
      !((n.store.filtersOf (ms.map (·.blockHash))).map (·.blockHash)).contains m.blockHash) = [] := by
    refine List.filter_eq_nil_iff.mpr fun m hm => ?_
    rw [Store.contains_filtersOf (List.mem_map_of_mem hm), hstored m hm]
    decide
  rw [processFilters_apply]
  split
  · rfl
  rw [View.repeatedBlock_eq_none hnd]
  dsimp only
  rw [hpending]
  rfl

theorem processFilters_ok_stored {ms : List FilterMessage}
    (h : processFilters v ms n = .ok v' n') :
    v' = v ∧ (ms.map (·.blockHash)).Nodup ∧ ∀ m ∈ ms, (n'.store.filterOf m.blockHash).isSome := by
  obtain ⟨rfl, ⟨rfl, rfl⟩ | ⟨hr, pending, hpend, hn⟩⟩ := processFilters_ok_steps h
  · simp
  refine ⟨rfl, View.repeatedBlock_eq_none_iff.mp hr, fun m hm => ?_⟩
  -- a message left out of the pending ones names a block that has a filter
  have hkept : m ∉ pending → (n.store.filterOf m.blockHash).isSome := by
    intro hnot
    rw [← Store.contains_filtersOf (List.mem_map_of_mem hm)]
    simpa [← hpend, hm] using hnot
  rcases hn with ⟨rfl, rfl⟩ | ⟨fs, hmap, s', hcr, rfl⟩
  · exact hkept List.not_mem_nil
  rw [Store.createFilters_ok hcr, Store.filterOf_isSome_iff, Store.blockHash_mem_foldl_putFilter]
  by_cases hpm : m ∈ pending
  · -- a pending message's filter was written
    obtain ⟨f, hf, hfm⟩ := mapM_ok_of_mem hmap m hpm
    obtain ⟨fh, -, rfl, -⟩ := View.filterOfMessage_ok hfm
    exact .inr (List.mem_map_of_mem (List.mem_mergeSort.mpr hf))
  · exact .inl (Store.filterOf_isSome_iff.mp (hkept hpm))

end NodeStep

theorem Reachable.of_run {config : Config} {h : Handler} (hr : Reachable config h) {v v' : View}
    (hvm : v ∈ h.views) {req : Request} {n' : Node} (hrun : req.run v h.node = .ok v' n') :
    Reachable config ⟨n', v' :: h.views⟩ := by
  have hs := hr.serve req hvm
  unfold Handler.serve at hs
  rwa [hrun] at hs

/-- In every reachable state, through any view: once a run of filter headers is accepted, the run
again, or its later links alone, are accepted by the node it left, and nothing is written or
announced. Once filters are accepted, the same filters again, or some of them, are accepted by the
node they left, and nothing is written or announced. -/
theorem filter_data_resubmission_is_noop {config : Config} {h : Handler}
    (hr : Reachable config h) {v : View} (hvm : v ∈ h.views)
    (h32 : ∀ r ∈ h.node.store.headers, r.height < 2 ^ 32) :
    (∀ (links links' : List FilterHeader) (stop : Hash256) (v' : View) (n' : Node),
      NodeStep.processFilterHeaders v links stop h.node = .ok v' n' → links' <:+ links →
        NodeStep.processFilterHeaders v' links' stop n' = .ok v' n') ∧
    ∀ (ms ms' : List FilterMessage) (v' : View) (n' : Node),
      NodeStep.processFilters v ms h.node = .ok v' n' → ms'.Sublist ms →
        NodeStep.processFilters v' ms' n' = .ok v' n' := by
  have hv := hr.valid
  have hcs := hv.chains v hvm
  have hnd := hv.headers.nodup
  refine ⟨fun links links' stop v' n' hok hsuf => ?_, fun ms ms' v' n' hok hsub => ?_⟩
  · by_cases hne' : links' = []
    · subst hne'
      rw [NodeStep.processFilterHeaders_apply]
      rfl
    have hne : links ≠ [] := fun hl => hne' (List.suffix_nil.mp (hl ▸ hsuf))
    obtain ⟨hvv, b, hb, hlen, fresh, hnew, hstore⟩ := NodeStep.processFilterHeaders_ok_run hok hne
    -- the node left is reachable, and the filter-header writes kept every block record
    have hr' := hr.of_run hvm
      (show Request.run (.filterHeaders links stop) v h.node = .ok v' n' from hok)
    rw [hvv] at hr' ⊢
    have hv' := hr'.valid
    have hcs' := hv'.chains v List.mem_cons_self
    have hheaders : n'.store.headers = h.node.store.headers := by
      rw [hstore]
      exact (Store.foldl_putFilterHeader_frame _ _).1
    have hbs := View.requireHeader_mem hcs hb
    -- the later links reach the later blocks of the run
    set blocks := v.chainEndingAt h.node.store b links.length
    have hk : links.length - links'.length < blocks.length := by
      rw [hlen]
      have := List.length_pos_iff.mpr hne'
      have := hsuf.length_le
      omega
    have hdrop := View.chainEndingAt_eq_drop (v := v) hcs' hv'.headers.nodup hr'.indexCovers
      hv'.headers.hasParents
      ((View.holdsChain_chainEndingAt hcs hbs links.length).mono fun r hr' => hheaders ▸ hr')
      (View.chainEndingAt_tip? hcs hnd hbs (List.length_pos_iff.mpr hne)) (h32 b hbs) hk
    have hlinks' : links' = links.drop (links.length - links'.length) :=
      List.suffix_iff_eq_drop.mp hsuf
    have hlen' : blocks.length - (links.length - links'.length) = links'.length := by
      rw [hlen]
      exact Nat.sub_sub_self (hsuf.length_le)
    rw [hlen'] at hdrop
    refine NodeStep.processFilterHeaders_of_stored (b := b) ?_ ?_ fun f hf => ?_
    · rw [← (View.requireHeader_ok hb).1]
      exact View.requireHeader_eq hcs' hv'.headers.nodup (hheaders ▸ hbs)
    · show (v.chainEndingAt n'.store b links'.length).records.length = links'.length
      rw [hdrop, List.length_drop]
      exact hlen'
    · have hf' : f ∈ (View.filterHeaderBatch links blocks).drop (links.length - links'.length) := by
        rwa [← View.filterHeaderBatch_drop hdrop, ← hlinks']
      rw [hstore]
      exact View.filterHeaderOf_foldl_newFilterHeaders hv.filters
        (View.nodup_filterHeaderBatch hlen
          ((View.holdsChain_chainEndingAt hcs hbs links.length).nodup_hash hnd))
        hnew f (List.mem_of_mem_drop hf')
  · obtain ⟨rfl, hnd', hstored⟩ := NodeStep.processFilters_ok_stored hok
    exact NodeStep.processFilters_of_stored ((hsub.map _).nodup hnd') fun m hm =>
      hstored m (hsub.subset hm)

end BitcoinLight
