import BitcoinLight.Proofs.StoreWrites
import BitcoinLight.Node.Filters

set_option autoImplicit false

/-!
# The checks on a run of filter headers and filters

A run of filter headers belongs to a chain ending at a known block; each header becomes the
record of its block. Only records of blocks without one are new; each new record must link to
the zero hash at genesis, or to a record one height below, found earlier in the run or by hash in
the store; and it must match the view's checkpoint for its block. A filter must hash to the
filter hash its block's filter header commits to.
-/

namespace BitcoinLight

theorem mapM_ok {α β ε : Type} {g : α → Except ε β} :
    ∀ {xs : List α} {ys : List β}, xs.mapM g = .ok ys → ∀ y ∈ ys, ∃ x ∈ xs, g x = .ok y
  | [], ys, h => by
    simp only [List.mapM_nil, pure, Except.pure, Except.ok.injEq] at h
    subst h
    simp
  | x :: xs, ys, h => by
    simp only [List.mapM_cons, bind, Except.bind] at h
    rcases hx : g x with e | y
    · simp [hx] at h
    rcases hxs : xs.mapM g with e | ys'
    · simp [hx, hxs] at h
    simp only [hx, hxs, pure, Except.pure, Except.ok.injEq] at h
    subst h
    intro z hz
    rcases List.mem_cons.mp hz with rfl | hz
    · exact ⟨x, List.mem_cons_self, hx⟩
    · obtain ⟨x', hx', hg⟩ := mapM_ok hxs z hz
      exact ⟨x', List.mem_cons_of_mem _ hx', hg⟩

namespace View

variable {s : Store} {v : View}

theorem Chain.find?_spec {c : Chain} {h : Hash256} {r : BlockRecord} (hr : c.find? h = some r) :
    r ∈ c.records ∧ r.hash = h := by
  have hm := List.mem_of_getLast? hr
  rw [List.mem_filter] at hm
  exact ⟨hm.1, by simpa using hm.2⟩

theorem requireHeader_ok {h : Hash256} {r : BlockRecord} (hr : v.requireHeader s h = .ok r) :
    r.hash = h ∧ ((∃ c ∈ v.chains, r ∈ c.records) ∨ r ∈ s.headers) := by
  unfold requireHeader header? at hr
  split at hr
  · rename_i r' hr'
    split at hr'
    · rename_i r'' hf
      cases hr'
      cases hr
      obtain ⟨c, hc, hcf⟩ := List.exists_of_findSome?_eq_some hf
      obtain ⟨hm, hh⟩ := Chain.find?_spec hcf
      exact ⟨hh, .inl ⟨c, hc, hm⟩⟩
    · rename_i hf
      cases hr
      obtain ⟨hh, hm⟩ := Store.findByHash_spec hr'
      exact ⟨hh, .inr hm⟩
  · cases hr

theorem chainEndingAt_cases (stop : BlockRecord) {n : Nat} (hn : 0 < n) :
    (∃ c ∈ v.chains, ∃ p, c.prefixThrough stop.hash = some p ∧
      p.first?.any (·.height ≤ Store.depthFloor stop.height n) = true ∧
      v.chainEndingAt s stop n = p.trim n) ∨
    v.chainEndingAt s stop n = s.chainTo stop n := by
  unfold chainEndingAt
  rw [if_neg (by omega)]
  dsimp only
  split
  · rename_i c hc
    obtain ⟨c', hc', hpc⟩ := List.exists_of_findSome?_eq_some hc
    split at hpc
    · rename_i p hp
      split at hpc
      · rename_i hfirst
        cases hpc
        exact .inl ⟨c', hc', p, hp, hfirst, rfl⟩
      · cases hpc
    · cases hpc
  · exact .inr rfl

theorem holdsChain_chainEndingAt (hcs : ∀ c ∈ v.chains, s.HoldsChain c) {stop : BlockRecord}
    (hstop : stop ∈ s.headers) (len : Nat) : s.HoldsChain (v.chainEndingAt s stop len) := by
  rcases Nat.eq_zero_or_pos len with rfl | hlen
  · rw [chainEndingAt, if_pos rfl]
    exact ⟨trivial, by simp⟩
  rcases chainEndingAt_cases (s := s) (v := v) stop hlen with ⟨c, hc, p, hp, -, heq⟩ | heq
  · -- a candidate's prefix through the block, cut to the length
    have hheld := hcs c hc
    rw [heq]
    refine ⟨Chain.linked_trim (Chain.linked_prefixThrough hheld.1 hp) len, fun r hr => ?_⟩
    exact hheld.2 r ((Chain.prefixThrough_spec hp).1.subset (Chain.mem_of_mem_trim hr))
  · rw [heq]
    exact Store.holdsChain_chainTo hstop len

theorem mem_filterHeaderBatch {links : List FilterHeader} {blocks : Chain} {f : FilterHeaderRecord}
    (hf : f ∈ filterHeaderBatch links blocks) :
    ∃ l, ∃ b ∈ blocks.records, f = FilterHeaderRecord.ofLink l b.hash b.height := by
  obtain ⟨⟨l, b⟩, hlb, rfl⟩ := List.mem_map.mp hf
  exact ⟨l, b, (List.of_mem_zip hlb).2, rfl⟩

theorem nodup_filterHeaderBatch {links : List FilterHeader} {blocks : Chain}
    (hl : blocks.records.length = links.length) (hnd : (blocks.records.map (·.hash)).Nodup) :
    ((filterHeaderBatch links blocks).map (·.blockHash)).Nodup := by
  have hsnd : (links.zip blocks.records).map Prod.snd = blocks.records :=
    List.map_snd_zip (Nat.le_of_eq hl)
  unfold filterHeaderBatch
  rw [List.map_map]
  have : ((fun f => f.blockHash) ∘ fun (p : FilterHeader × BlockRecord) =>
      FilterHeaderRecord.ofLink p.1 p.2.hash p.2.height) = (·.hash) ∘ Prod.snd := rfl
  rw [this, ← List.map_map, hsnd]
  exact hnd

theorem ofLink_link (l : FilterHeader) (b : Hash256) (height : Nat) :
    (FilterHeaderRecord.ofLink l b height).link = l := rfl

theorem addNewFilterHeader_ok {acc r : List FilterHeaderRecord} {f : FilterHeaderRecord}
    (h : addNewFilterHeader s acc f = .ok r) :
    r = acc ∨ (r = acc ++ [f] ∧ s.filterHeaderOf f.blockHash = none) := by
  unfold addNewFilterHeader at h
  split at h
  · split at h
    · cases h
      exact .inl rfl
    · cases h
  · rename_i hnone
    cases h
    exact .inr ⟨rfl, hnone⟩

theorem foldlM_addNewFilterHeader : ∀ (bs acc r : List FilterHeaderRecord),
    bs.foldlM (addNewFilterHeader s) acc = .ok r →
      ∃ new, r = acc ++ new ∧ new.Sublist bs ∧ ∀ f ∈ new, s.filterHeaderOf f.blockHash = none
  | [], acc, r, h => by
    cases h
    exact ⟨[], by simp, by simp, by simp⟩
  | f :: bs, acc, r, h => by
    simp only [List.foldlM_cons, bind, Except.bind] at h
    rcases hstep : addNewFilterHeader s acc f with e | acc'
    · simp [hstep] at h
    simp only [hstep] at h
    obtain ⟨new, rfl, hsub, hnone⟩ := foldlM_addNewFilterHeader bs acc' r h
    rcases addNewFilterHeader_ok hstep with rfl | ⟨rfl, hf⟩
    · exact ⟨new, rfl, hsub.cons f, hnone⟩
    · refine ⟨f :: new, by simp, hsub.cons_cons f, ?_⟩
      intro g hg
      rcases List.mem_cons.mp hg with rfl | hg
      · exact hf
      · exact hnone g hg

theorem newFilterHeaders_ok {batch fresh : List FilterHeaderRecord}
    (h : newFilterHeaders s batch = .ok fresh) :
    fresh.Sublist batch ∧ ∀ f ∈ fresh, s.filterHeaderOf f.blockHash = none := by
  obtain ⟨new, rfl, hsub, hnone⟩ := foldlM_addNewFilterHeader batch [] fresh h
  exact ⟨by simpa using hsub, by simpa using hnone⟩

theorem filterLinkStep_ok {hs hs' : List (Hash256 × Nat)} {f : FilterHeaderRecord}
    (h : filterLinkStep s hs f = .ok hs') :
    hs' = (f.hash, f.height) :: hs ∧ (f.height = 0 → f.prevHeader = Hash256.zero) ∧
      (0 < f.height → (∃ e ∈ hs, e.1 = f.prevHeader ∧ e.2 + 1 = f.height) ∨
        ∃ x, s.findFilterHeader f.prevHeader = some x ∧ x.height + 1 = f.height) := by
  unfold filterLinkStep at h
  split at h
  · rename_i h0
    split at h
    · cases h
    · rename_i hz
      cases h
      exact ⟨rfl, fun _ => Classical.not_not.mp hz, fun hp => absurd h0 (Nat.pos_iff_ne_zero.mp hp)⟩
  · rename_i h0
    dsimp only at h
    split at h
    · rename_i hb hprev
      split at h
      · rename_i hh
        cases h
        refine ⟨rfl, fun h => absurd h h0, fun _ => ?_⟩
        -- the height came from the run, or else from the store
        split at hprev
        · rename_i e' hfind
          cases hprev
          exact .inl ⟨_, List.mem_of_find?_eq_some hfind, by simpa using List.find?_some hfind, hh⟩
        · obtain ⟨x, hx, rfl⟩ := Option.map_eq_some_iff.mp hprev
          exact .inr ⟨x, hx, hh⟩
      · cases h
    · cases h

theorem verifyFilterLinks_ok {fs : List FilterHeaderRecord} (h : verifyFilterLinks s fs = .ok ()) :
    ∀ f ∈ fs, (f.height = 0 → f.prevHeader = Hash256.zero) ∧
      (0 < f.height → (∃ g ∈ fs, g.hash = f.prevHeader ∧ g.height + 1 = f.height) ∨
        ∃ x, s.findFilterHeader f.prevHeader = some x ∧ x.height + 1 = f.height) := by
  -- the heights met so far are those of records of the run
  suffices key : ∀ (bs : List FilterHeaderRecord) (hs r : List (Hash256 × Nat)),
      (∀ e ∈ hs, ∃ g ∈ fs, e = (g.hash, g.height)) → (∀ f ∈ bs, f ∈ fs) →
      bs.foldlM (filterLinkStep s) hs = .ok r →
      ∀ f ∈ bs, (f.height = 0 → f.prevHeader = Hash256.zero) ∧
        (0 < f.height → (∃ g ∈ fs, g.hash = f.prevHeader ∧ g.height + 1 = f.height) ∨
          ∃ x, s.findFilterHeader f.prevHeader = some x ∧ x.height + 1 = f.height) by
    unfold verifyFilterLinks at h
    rcases hf : fs.foldlM (filterLinkStep s) [] with e | r
    · simp [hf, Except.map] at h
    · exact key fs [] r (by simp) (fun _ hf => hf) hf
  intro bs
  induction bs with
  | nil => simp
  | cons f bs ih =>
    intro hs r hhs hbs hr
    simp only [List.foldlM_cons, bind, Except.bind] at hr
    rcases hstep : filterLinkStep s hs f with e | hs'
    · simp [hstep] at hr
    simp only [hstep] at hr
    obtain ⟨rfl, h0, hpos⟩ := filterLinkStep_ok hstep
    have hhs' : ∀ e ∈ (f.hash, f.height) :: hs, ∃ g ∈ fs, e = (g.hash, g.height) := by
      intro e he
      rcases List.mem_cons.mp he with rfl | he
      · exact ⟨f, hbs f List.mem_cons_self, rfl⟩
      · exact hhs e he
    intro g hg
    rcases List.mem_cons.mp hg with rfl | hg
    · refine ⟨h0, fun hp => (hpos hp).imp_left ?_⟩
      rintro ⟨e, he, h1, h2⟩
      obtain ⟨g', hg', rfl⟩ := hhs e he
      exact ⟨g', hg', h1, h2⟩
    · exact ih _ r hhs' (fun f hf => hbs f (List.mem_cons_of_mem _ hf)) hr g hg

theorem verifyCheckpoints_ok {fs : List FilterHeaderRecord} (h : v.verifyCheckpoints fs = .ok ()) :
    ∀ f ∈ fs, ∀ e, v.checkpointOf f.blockHash = some e → f.hash = e := by
  unfold verifyCheckpoints at h
  induction fs with
  | nil => simp
  | cons f fs ih =>
    simp only [List.forM, bind, Except.bind] at h
    -- the head passed its own check, and the rest passed theirs
    have hhead : ∀ e, v.checkpointOf f.blockHash = some e → f.hash = e := by
      intro e he
      simp only [he] at h
      by_cases hfe : e = f.hash
      · exact hfe.symm
      · simp [hfe] at h
    have hrest : ∀ g ∈ fs, ∀ e, v.checkpointOf g.blockHash = some e → g.hash = e := by
      apply ih
      rcases hc : v.checkpointOf f.blockHash with _ | e
      · simpa [hc] using h
      · simpa [hc, hhead e hc] using h
    intro g hg
    rcases List.mem_cons.mp hg with rfl | hg
    · exact hhead
    · exact hrest g hg

theorem filterOfMessage_ok {m : FilterMessage} {f : FilterRecord}
    (h : filterOfMessage s m = .ok f) :
    ∃ fh, s.filterHeaderOf m.blockHash = some fh ∧
      f = FilterRecord.ofBytes m.bytes m.blockHash fh.height ∧ f.hash = fh.filterHash := by
  unfold filterOfMessage at h
  rcases hfh : s.filterHeaderOf m.blockHash with _ | fh
  · simp [hfh] at h
  simp only [hfh] at h
  by_cases heq : (FilterRecord.ofBytes m.bytes m.blockHash fh.height).hash = fh.filterHash
  · rw [if_neg (not_not.mpr heq)] at h
    have hf := Except.ok.inj h
    exact ⟨fh, rfl, hf.symm, hf ▸ heq⟩
  · rw [if_pos heq] at h
    exact absurd h (by simp)

end View

end BitcoinLight
