import BitcoinLight.Proofs.FilterBatch
import BitcoinLight.Proofs.Requests

set_option autoImplicit false

/-!
# The filter-header and filter store

What the store of filter headers and filters holds in every state a handler reaches
(`FilterStore`): one filter-header record per block, each for a stored block at its height,
hashing its own link, and linking to the zero hash at genesis or else to a stored record one
height below; an index by hash that names exactly the stored records; and one filter per block,
hashing its bytes, committed to by its block's filter header.

Storing filter headers keeps it, because the link check finds the record below by hash either
earlier in the run or through that index; storing filters keeps it, because each filter is
checked against its block's filter header.
-/

namespace BitcoinLight

/-- What the filter-header and filter store holds in every state a handler reaches. -/
structure FilterStore (s : Store) : Prop where
  nodup : (s.filterHeaders.map (·.blockHash)).Nodup
  block : ∀ f ∈ s.filterHeaders, ∃ r ∈ s.headers, r.hash = f.blockHash ∧ r.height = f.height
  link_hash : ∀ f ∈ s.filterHeaders, f.link.hash = f.hash
  genesis_link : ∀ f ∈ s.filterHeaders, f.height = 0 → f.prevHeader = Hash256.zero
  below : ∀ f ∈ s.filterHeaders, 0 < f.height →
    ∃ g ∈ s.filterHeaders, g.hash = f.prevHeader ∧ g.height + 1 = f.height
  hashes_sound : ∀ e ∈ s.filterHeaderHashes,
    ∃ g ∈ s.filterHeaders, g.blockHash = e.2 ∧ g.hash = e.1
  hashes_complete : ∀ g ∈ s.filterHeaders, (g.hash, g.blockHash) ∈ s.filterHeaderHashes
  filters_nodup : (s.filters.map (·.blockHash)).Nodup
  filter_hash : ∀ f ∈ s.filters, f.hash = filterHash f.bytes
  filter_header : ∀ f ∈ s.filters,
    ∃ g ∈ s.filterHeaders, g.blockHash = f.blockHash ∧ g.filterHash = f.hash ∧ g.height = f.height

/-- A run of filter-header records new to `s`: each for a stored block at its height, hashing its
own link, one per block and for blocks without a record, and linked as the link check asks. -/
structure FreshFilterHeaders (s : Store) (fresh : List FilterHeaderRecord) : Prop where
  block : ∀ f ∈ fresh, ∃ r ∈ s.headers, r.hash = f.blockHash ∧ r.height = f.height
  link_hash : ∀ f ∈ fresh, f.link.hash = f.hash
  nodup : (fresh.map (·.blockHash)).Nodup
  new : ∀ f ∈ fresh, s.filterHeaderOf f.blockHash = none
  links : View.verifyFilterLinks s fresh = .ok ()

theorem FreshFilterHeaders.mem_foldl {s : Store} {fresh : List FilterHeaderRecord}
    (hfr : FreshFilterHeaders s fresh) (f : FilterHeaderRecord) :
    f ∈ (fresh.foldl Store.putFilterHeader s).filterHeaders ↔ f ∈ s.filterHeaders ∨ f ∈ fresh :=
  mem_foldl_write FilterHeaderRecord.blockHash Store.filterHeaders Store.putFilterHeader
    (fun _ _ _ => Store.mem_putFilterHeader) fresh s hfr.nodup
    (fun f hf' y hy => Store.filterHeaderOf_eq_none (hfr.new f hf') y hy) f

namespace FilterStore

variable {s s' : Store}

theorem of_empty (h1 : s.filterHeaders = []) (h2 : s.filterHeaderHashes = []) (h3 : s.filters = []) :
    FilterStore s where
  nodup := by simp [h1]
  block := by simp [h1]
  link_hash := by simp [h1]
  genesis_link := by simp [h1]
  below := by simp [h1]
  hashes_sound := by simp [h2]
  hashes_complete := by simp [h1]
  filters_nodup := by simp [h3]
  filter_hash := by simp [h3]
  filter_header := by simp [h3]

theorem frame (hf : FilterStore s) (h1 : s'.filterHeaders = s.filterHeaders)
    (h2 : s'.filterHeaderHashes = s.filterHeaderHashes) (h3 : s'.filters = s.filters)
    (hh : ∀ r ∈ s.headers, r ∈ s'.headers) : FilterStore s' where
  nodup := h1 ▸ hf.nodup
  block f hf' := by
    obtain ⟨r, hr, hrh⟩ := hf.block f (h1 ▸ hf')
    exact ⟨r, hh r hr, hrh⟩
  link_hash := h1 ▸ hf.link_hash
  genesis_link := h1 ▸ hf.genesis_link
  below := h1 ▸ hf.below
  hashes_sound := h1 ▸ h2 ▸ hf.hashes_sound
  hashes_complete := h1 ▸ h2 ▸ hf.hashes_complete
  filters_nodup := h3 ▸ hf.filters_nodup
  filter_hash := h3 ▸ hf.filter_hash
  filter_header := h1 ▸ h3 ▸ hf.filter_header

theorem filterHeaderOf_mem (hf : FilterStore s) {g : FilterHeaderRecord} (hg : g ∈ s.filterHeaders) :
    s.filterHeaderOf g.blockHash = some g :=
  Store.filterHeaderOf_of_mem hf.nodup hg

theorem findFilterHeader_spec (hf : FilterStore s) {h : Hash256} {g : FilterHeaderRecord}
    (hg : s.findFilterHeader h = some g) : g ∈ s.filterHeaders ∧ g.hash = h := by
  obtain ⟨e, he, rfl, hge⟩ := Store.findFilterHeader_spec hg
  obtain ⟨hgm, hgb⟩ := Store.filterHeaderOf_spec hge
  obtain ⟨g', hg', hb', hh'⟩ := hf.hashes_sound e he
  have : g = g' := List.inj_on_of_nodup_map hf.nodup hgm hg' (hgb.trans hb'.symm)
  exact ⟨hgm, this ▸ hh'⟩

theorem findFilterHeader_isSome (hf : FilterStore s) {g : FilterHeaderRecord}
    (hg : g ∈ s.filterHeaders) : ∃ x, s.findFilterHeader g.hash = some x := by
  refine Store.findFilterHeader_isSome (hf.hashes_complete g hg) fun e he => ?_
  obtain ⟨g', hg', hb', -⟩ := hf.hashes_sound e he
  rw [← hb', hf.filterHeaderOf_mem hg']
  rfl

theorem putFilterHeaders (hf : FilterStore s) {fresh : List FilterHeaderRecord}
    (hfr : FreshFilterHeaders s fresh) : FilterStore (fresh.foldl Store.putFilterHeader s) := by
  obtain ⟨hheaders, hfilters, hhashes⟩ := Store.foldl_putFilterHeader_frame fresh s
  have hmem := hfr.mem_foldl
  have hlinks := View.verifyFilterLinks_ok hfr.links
  constructor
  · exact Store.nodup_foldl_putFilterHeader fresh s hf.nodup
  · intro f hf'
    rw [hheaders]
    rcases (hmem f).mp hf' with hf' | hf'
    · exact hf.block f hf'
    · exact hfr.block f hf'
  · intro f hf'
    rcases (hmem f).mp hf' with hf' | hf'
    · exact hf.link_hash f hf'
    · exact hfr.link_hash f hf'
  · intro f hf'
    rcases (hmem f).mp hf' with hf' | hf'
    · exact hf.genesis_link f hf'
    · exact (hlinks f hf').1
  · intro f hf' hpos
    rcases (hmem f).mp hf' with hf' | hf'
    · obtain ⟨g, hg, hgh⟩ := hf.below f hf' hpos
      exact ⟨g, (hmem g).mpr (.inl hg), hgh⟩
    · -- the record below was met earlier in the run, or found by hash in the store
      rcases (hlinks f hf').2 hpos with ⟨g, hg, hgh⟩ | ⟨x, hx, hxh⟩
      · exact ⟨g, (hmem g).mpr (.inr hg), hgh⟩
      · obtain ⟨hxm, hxe⟩ := hf.findFilterHeader_spec hx
        exact ⟨x, (hmem x).mpr (.inl hxm), hxe, hxh⟩
  · intro e he
    rw [hhashes, List.mem_append] at he
    rcases he with he | he
    · obtain ⟨g, hg, hgh⟩ := hf.hashes_sound e he
      exact ⟨g, (hmem g).mpr (.inl hg), hgh⟩
    · obtain ⟨f, hf', rfl⟩ := List.mem_map.mp he
      exact ⟨f, (hmem f).mpr (.inr hf'), rfl, rfl⟩
  · intro g hg
    rw [hhashes, List.mem_append]
    rcases (hmem g).mp hg with hg | hg
    · exact .inl (hf.hashes_complete g hg)
    · exact .inr (List.mem_map_of_mem hg)
  · exact hfilters ▸ hf.filters_nodup
  · exact hfilters ▸ hf.filter_hash
  · intro f hf'
    obtain ⟨g, hg, hgf⟩ := hf.filter_header f (hfilters ▸ hf')
    exact ⟨g, (hmem g).mpr (.inl hg), hgf⟩

theorem putFilters (hf : FilterStore s) {fs : List FilterRecord}
    (hfs : ∀ f ∈ fs, f.hash = filterHash f.bytes ∧
      ∃ g ∈ s.filterHeaders, g.blockHash = f.blockHash ∧ g.filterHash = f.hash ∧ g.height = f.height) :
    FilterStore (fs.foldl Store.putFilter s) := by
  obtain ⟨hheaders, hfh, hhashes⟩ := Store.foldl_putFilter_frame fs s
  constructor
  · exact hfh ▸ hf.nodup
  · exact hfh ▸ hheaders ▸ hf.block
  · exact hfh ▸ hf.link_hash
  · exact hfh ▸ hf.genesis_link
  · exact hfh ▸ hf.below
  · exact hfh ▸ hhashes ▸ hf.hashes_sound
  · exact hfh ▸ hhashes ▸ hf.hashes_complete
  · exact Store.nodup_foldl_putFilter fs s hf.filters_nodup
  · intro f hf'
    rcases Store.mem_foldl_putFilter fs s hf' with hf' | hf'
    · exact hf.filter_hash f hf'
    · exact (hfs f hf').1
  · intro f hf'
    rw [hfh]
    rcases Store.mem_foldl_putFilter fs s hf' with hf' | hf'
    · exact hf.filter_header f hf'
    · exact (hfs f hf').2

end FilterStore

/-! ## What the requests write -/

namespace NodeStep

variable {v v' : View} {n n' : Node}

/-- What an accepted request to add filter headers did. An empty run changes nothing. Otherwise
it found the stop block and the chain of as many blocks ending there, and computed the records new
to the store: with none the node is unchanged, and else their links and checkpoints passed and the
store took them, announced in one event. -/
theorem processFilterHeaders_ok_steps {links : List FilterHeader} {stop : Hash256}
    (h : processFilterHeaders v links stop n = .ok v' n') :
    v' = v ∧ (links = [] ∧ n' = n ∨
      ∃ b, v.requireHeader n.store stop = .ok b ∧
        (v.chainEndingAt n.store b links.length).length = links.length ∧
        ∃ fresh, View.newFilterHeaders n.store
            (View.filterHeaderBatch links (v.chainEndingAt n.store b links.length)) = .ok fresh ∧
          (fresh = [] ∧ n' = n ∨
            View.verifyFilterLinks n.store fresh = .ok () ∧ v.verifyCheckpoints fresh = .ok () ∧
            ∃ s', n.store.createFilterHeaders fresh = .ok s' ∧
              n' = { n with store := s',
                            outbox := n.outbox ++ [(v.session, .filterHeadersConnected fresh)] })) := by
  rw [processFilterHeaders_apply] at h
  by_cases hl : links.isEmpty
  · simp only [hl, ↓reduceIte] at h
    cases h
    exact ⟨rfl, .inl ⟨List.isEmpty_iff.mp hl, rfl⟩⟩
  simp only [hl, Bool.false_eq_true, ↓reduceIte] at h
  rcases hb : v.requireHeader n.store stop with e | b
  · simp only [hb] at h
    cases h
  simp only [hb] at h
  by_cases hlen : (v.chainEndingAt n.store b links.length).length = links.length
  swap
  · simp only [hlen, ne_eq, not_false_eq_true, ↓reduceIte] at h
    cases h
  simp only [hlen, ne_eq, not_true_eq_false, ↓reduceIte] at h
  rcases hnew : View.newFilterHeaders n.store
    (View.filterHeaderBatch links (v.chainEndingAt n.store b links.length)) with e | fresh
  · simp only [hnew] at h
    cases h
  simp only [hnew] at h
  by_cases hempty : fresh.isEmpty
  · -- nothing new: the node is left as it was
    simp only [hempty, ↓reduceIte] at h
    cases h
    exact ⟨rfl, .inr ⟨b, rfl, hlen, fresh, hnew, .inl ⟨List.isEmpty_iff.mp hempty, rfl⟩⟩⟩
  simp only [hempty, Bool.false_eq_true, ↓reduceIte] at h
  rcases hlinks : View.verifyFilterLinks n.store fresh with e | ⟨⟩
  · simp only [hlinks] at h
    cases h
  rcases hcp : v.verifyCheckpoints fresh with e | ⟨⟩
  · simp only [hlinks, hcp] at h
    cases h
  rcases hcr : n.store.createFilterHeaders fresh with m | s'
  · simp only [hlinks, hcp, hcr] at h
    cases h
  simp only [hlinks, hcp, hcr] at h
  cases h
  exact ⟨rfl, .inr ⟨b, rfl, hlen, fresh, hnew, .inr ⟨hlinks, hcp, s', hcr, rfl⟩⟩⟩

theorem processFilterHeaders_ok {links : List FilterHeader} {stop : Hash256}
    (hcs : ∀ c ∈ v.chains, n.store.HoldsChain c) (hnd : (n.store.headers.map (·.hash)).Nodup)
    (h : processFilterHeaders v links stop n = .ok v' n') :
    v' = v ∧ (n' = n ∨ ∃ fresh, FreshFilterHeaders n.store fresh ∧
      v.verifyCheckpoints fresh = .ok () ∧
      n' = { n with store := fresh.foldl Store.putFilterHeader n.store,
                    outbox := n.outbox ++ [(v.session, .filterHeadersConnected fresh)] }) := by
  obtain ⟨rfl, ⟨-, rfl⟩ | ⟨b, hb, hlen, fresh, hnew, ⟨-, rfl⟩ | ⟨hlinks, hcp, s', hcr, rfl⟩⟩⟩ :=
    processFilterHeaders_ok_steps h
  · exact ⟨rfl, .inl rfl⟩
  · exact ⟨rfl, .inl rfl⟩
  obtain ⟨rfl, hnone⟩ := Store.createFilterHeaders_ok hcr
  refine ⟨rfl, .inr ⟨fresh, ?_, hcp, rfl⟩⟩
  -- the run's blocks are a stored chain ending at a stored block
  have hbs : b ∈ n.store.headers := by
    rcases (View.requireHeader_ok hb).2 with ⟨c, hc, hbc⟩ | hbs
    · exact (hcs c hc).2 b hbc
    · exact hbs
  have hblocks := View.holdsChain_chainEndingAt hcs hbs links.length
  obtain ⟨hsub, -⟩ := View.newFilterHeaders_ok hnew
  refine ⟨fun f hf => ?_, fun f hf => ?_, ?_, hnone, hlinks⟩
  · obtain ⟨l, b', hb', rfl⟩ := View.mem_filterHeaderBatch (hsub.subset hf)
    exact ⟨b', hblocks.2 b' hb', rfl, rfl⟩
  · obtain ⟨l, b', hb', rfl⟩ := View.mem_filterHeaderBatch (hsub.subset hf)
    rfl
  · exact (hsub.map _).nodup (View.nodup_filterHeaderBatch hlen (hblocks.nodup_hash hnd))

/-- What an accepted request to add filters did. An empty request changes nothing. Otherwise no
block is named twice, and of the messages, those for blocks without a stored filter are pending:
with none the node is unchanged, and else each became a filter record and the store took them,
lowest first, announced in one event. -/
theorem processFilters_ok_steps {ms : List FilterMessage} (h : processFilters v ms n = .ok v' n') :
    v' = v ∧ (ms = [] ∧ n' = n ∨
      View.repeatedBlock ms = none ∧ ∃ pending, ms.filter (fun m =>
          !((n.store.filtersOf (ms.map (·.blockHash))).map (·.blockHash)).contains m.blockHash) =
          pending ∧
        (pending = [] ∧ n' = n ∨
          ∃ fs, pending.mapM (View.filterOfMessage n.store) = .ok fs ∧
            ∃ s', n.store.createFilters (fs.mergeSort fun a b => decide (a.height ≤ b.height)) =
              .ok s' ∧
              n' = { n with
                store := s'
                outbox := n.outbox ++ [(v.session,
                  .filtersConnected (fs.mergeSort fun a b => decide (a.height ≤ b.height)))] })) := by
  rw [processFilters_apply] at h
  by_cases hm : ms.isEmpty
  · simp only [hm, ↓reduceIte] at h
    cases h
    exact ⟨rfl, .inl ⟨List.isEmpty_iff.mp hm, rfl⟩⟩
  simp only [hm, Bool.false_eq_true, ↓reduceIte] at h
  rcases hr : View.repeatedBlock ms with _ | b
  swap
  · simp only [hr] at h
    cases h
  simp only [hr] at h
  generalize List.filter _ ms = pending at h
  by_cases hp : pending.isEmpty
  · simp only [hp, ↓reduceIte] at h
    cases h
    exact ⟨rfl, .inr ⟨rfl, pending, rfl, .inl ⟨List.isEmpty_iff.mp hp, rfl⟩⟩⟩
  simp only [hp, Bool.false_eq_true, ↓reduceIte] at h
  rcases hmap : pending.mapM (View.filterOfMessage n.store) with e | fs
  · simp only [hmap] at h
    cases h
  simp only [hmap] at h
  rcases hcr : n.store.createFilters (fs.mergeSort fun a b => decide (a.height ≤ b.height)) with
    m | s'
  · simp only [hcr] at h
    cases h
  simp only [hcr] at h
  cases h
  exact ⟨rfl, .inr ⟨rfl, pending, rfl, .inr ⟨fs, hmap, s', hcr, rfl⟩⟩⟩

theorem processFilters_ok {ms : List FilterMessage} (h : processFilters v ms n = .ok v' n') :
    v' = v ∧ (n' = n ∨ ∃ fs : List FilterRecord, (∀ f ∈ fs, f.hash = filterHash f.bytes ∧
      ∃ g ∈ n.store.filterHeaders, g.blockHash = f.blockHash ∧ g.filterHash = f.hash ∧
        g.height = f.height) ∧
      n' = { n with store := fs.foldl Store.putFilter n.store,
                    outbox := n.outbox ++ [(v.session, .filtersConnected fs)] }) := by
  obtain ⟨rfl, ⟨-, rfl⟩ | ⟨-, pending, -, ⟨-, rfl⟩ | ⟨fs, hmap, s', hcr, rfl⟩⟩⟩ :=
    processFilters_ok_steps h
  · exact ⟨rfl, .inl rfl⟩
  · exact ⟨rfl, .inl rfl⟩
  rw [Store.createFilters_ok hcr]
  refine ⟨rfl, .inr ⟨_, fun f hf => ?_, rfl⟩⟩
  obtain ⟨m, -, hfm⟩ := mapM_ok hmap f (List.mem_mergeSort.mp hf)
  obtain ⟨fh, hfh, rfl, hh⟩ := View.filterOfMessage_ok hfm
  obtain ⟨hfhm, hfhb⟩ := Store.filterHeaderOf_spec hfh
  exact ⟨rfl, fh, hfhm, hfhb, hh.symm, rfl⟩

end NodeStep

end BitcoinLight
