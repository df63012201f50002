import BitcoinLight.Proofs.Handler
import BitcoinLight.Node.Query

set_option autoImplicit false

/-!
# The best header

The best header of a view is a tip of most work among its candidates (`bestTip_spec`). A view of
the latest generation has a candidate ending at every chain tip of the store, and from any stored
record a run of children, each with at least its parent's work, reaches a chain tip: so its best
header carries the most work of any stored record, which is the most work of a chain tip, and
the best work never falls from one latest view to the next.

A child is found by the hash it names as its parent. The genesis header names the zero hash, so
the descent needs that no stored record hashes to zero (`Store.StoresZeroHash`): a double
SHA-256 preimage of zero.
-/

namespace BitcoinLight

/-! ## Choosing among tips -/

theorem earliest_cons_eq_some {r e : BlockRecord} {rest : List BlockRecord}
    (h : earliest (r :: rest) = some e) :
    (earliest rest = some e ∧ e.timestamp < r.timestamp) ∨
      (e = r ∧ ∀ e', earliest rest = some e' → r.timestamp ≤ e'.timestamp) := by
  rw [earliest] at h
  rcases he : earliest rest with _ | e'
  · simp only [he, Option.some.injEq] at h
    exact .inr ⟨h.symm, fun _ hn => by cases hn⟩
  · simp only [he] at h
    split at h
    · rename_i hlt
      cases h
      exact .inl ⟨rfl, hlt⟩
    · rename_i hge
      cases h
      exact .inr ⟨rfl, fun _ he'' => by
        cases he''
        exact UInt32.not_lt.mp hge⟩

theorem earliest_mem {e : BlockRecord} : ∀ {rs : List BlockRecord}, earliest rs = some e → e ∈ rs
  | [], h => by simp [earliest] at h
  | r :: rest, h => by
    rcases earliest_cons_eq_some h with ⟨he, -⟩ | ⟨rfl, -⟩
    · exact List.mem_cons_of_mem _ (earliest_mem he)
    · exact List.mem_cons_self

theorem earliest_cons_ne_none (r : BlockRecord) (rest : List BlockRecord) :
    earliest (r :: rest) ≠ none := by
  rw [earliest]
  rcases earliest rest with _ | e
  · simp
  · simp only
    split <;> simp

theorem mem_mostWorkTips {ts : List BlockRecord} {b : BlockRecord} (h : b ∈ mostWorkTips ts) :
    b ∈ ts ∧ ∀ t ∈ ts, t.work ≤ b.work := by
  unfold mostWorkTips at h
  rcases hm : (ts.map (·.work)).max? with _ | m
  · simp [hm] at h
  simp only [hm] at h
  obtain ⟨hbt, hbm⟩ := List.mem_filter.mp (mem_firstOfEachKey _ h)
  have hmax := (List.max?_eq_some_iff.mp hm).2
  rw [beq_iff_eq] at hbm
  exact ⟨hbt, fun t ht => hbm ▸ hmax _ (List.mem_map_of_mem ht)⟩

theorem mostWorkTips_ne_nil {ts : List BlockRecord} (h : ts ≠ []) : mostWorkTips ts ≠ [] := by
  unfold mostWorkTips
  rcases hm : (ts.map (·.work)).max? with _ | m
  · exact absurd (List.map_eq_nil_iff.mp (List.max?_eq_none_iff.mp hm)) h
  simp only [hm]
  -- a tip carrying the most work passes the filter, and one tip of its hash is kept
  obtain ⟨t, ht, htm⟩ := List.mem_map.mp (List.max?_eq_some_iff.mp hm).1
  have hft : t ∈ ts.filter (·.work == m) := List.mem_filter.mpr ⟨ht, by simp [htm]⟩
  obtain ⟨y, hy, -⟩ := exists_firstOfEachKey (·.hash) hft
  exact List.ne_nil_of_mem hy

theorem bestTip_spec {ts : List BlockRecord} {b : BlockRecord} (h : bestTip ts = some b) :
    b ∈ ts ∧ ∀ t ∈ ts, t.work ≤ b.work :=
  mem_mostWorkTips (earliest_mem h)

theorem bestTip_isSome {ts : List BlockRecord} (h : ts ≠ []) : ∃ b, bestTip ts = some b := by
  obtain ⟨r, rest, hrs⟩ := List.exists_cons_of_ne_nil (mostWorkTips_ne_nil h)
  unfold bestTip
  rw [hrs]
  exact Option.ne_none_iff_exists'.mp (earliest_cons_ne_none r rest)

/-! ## Work along the tree of records -/

theorem blockProof_le (bits : UInt32) : Work.blockProof bits ≤ Work.maxU256 := by
  rw [Work.blockProof_eq]
  unfold Work.maxU256
  split
  · rename_i hv
    -- a usable target is positive, so the proof is below `2 ^ 256`
    have ht : (Work.expandTarget bits).target ≠ 0 := by
      simp only [Work.Compact.valid, Bool.and_eq_true, Bool.not_eq_true', bne_iff_ne] at hv
      exact hv.2
    have := Nat.div_lt_self (Nat.two_pow_pos 256) (by omega : 1 < (Work.expandTarget bits).target + 1)
    omega
  · exact Nat.zero_le _

theorem le_addWork {a : Nat} (ha : a ≤ Work.maxU256) (b : Nat) : a ≤ Work.addWork a b :=
  le_min (Nat.le_add_right a b) ha

theorem genesis_prevHash (net : Network) :
    (BlockRecord.genesis net.params).prevHash = Hash256.zero := by
  cases net <;> rfl

/-- Some stored block record hashes to the zero hash, which the genesis header names as its
parent. -/
def Store.StoresZeroHash (s : Store) : Prop := ∃ r ∈ s.headers, r.hash = Hash256.zero

namespace HeaderStore

variable {net : Network} {s : Store}

theorem work_le (hs : HeaderStore net.params s) : ∀ r ∈ s.headers, r.work ≤ Work.maxU256 := by
  intro r hr
  by_cases h0 : r.height = 0
  · rw [hs.eq_genesis r hr h0]
    exact blockProof_le _
  · obtain ⟨q, -, ha⟩ := hs.parent r hr (Nat.pos_of_ne_zero h0)
    rw [ha.work_eq]
    exact min_le_right _ _

theorem accepted_of_prevHash (hs : HeaderStore net.params s) (hz : ¬s.StoresZeroHash)
    {q r : BlockRecord} (hq : q ∈ s.headers) (hr : r ∈ s.headers) (h : r.prevHash = q.hash) :
    Accepted net.params q r := by
  have h0 : 0 < r.height := by
    refine Nat.pos_of_ne_zero fun h0 => hz ⟨q, hq, ?_⟩
    rw [← h, hs.eq_genesis r hr h0, genesis_prevHash]
  obtain ⟨q', hq', ha⟩ := hs.parent r hr h0
  rwa [hs.eq_of_hash_eq hq hq' (h.symm.trans ha.prev_eq)]

theorem chainTip_or_child (hs : HeaderStore net.params s) (hz : ¬s.StoresZeroHash)
    {r : BlockRecord} (hr : r ∈ s.headers) :
    r ∈ s.chainTips ∨ ∃ x ∈ s.headers, x.height = r.height + 1 ∧ r.work ≤ x.work := by
  by_cases ht : ∃ x ∈ s.headers, x.prevHash = r.hash
  swap
  · exact .inl (Store.mem_chainTips.mpr ⟨hr, fun x hx hxr => ht ⟨x, hx, hxr⟩⟩)
  obtain ⟨x, hx, hxr⟩ := ht
  have ha := hs.accepted_of_prevHash hz hr hx hxr
  exact .inr ⟨x, hx, ha.height_eq, ha.work_eq ▸ le_addWork (hs.work_le r hr) _⟩

theorem exists_chainTip_work_ge (hs : HeaderStore net.params s) (hz : ¬s.StoresZeroHash)
    (r : BlockRecord) (hr : r ∈ s.headers) : ∃ t ∈ s.chainTips, r.work ≤ t.work := by
  rcases hs.chainTip_or_child hz hr with ht | ⟨x, hx, hxh, hxw⟩
  · exact ⟨r, ht, le_rfl⟩
  · obtain ⟨t, ht, htw⟩ := exists_chainTip_work_ge hs hz x hx
    exact ⟨t, ht, hxw.trans htw⟩
termination_by (s.headers.map (·.height)).sum - r.height
decreasing_by
  -- each child is one higher, and no stored height passes the sum of all of them
  have := List.le_sum_of_mem (List.mem_map_of_mem hx : x.height ∈ s.headers.map (·.height))
  omega

end HeaderStore

/-! ## The best header of a latest view -/

namespace Valid

variable {config : Config} {h : Handler} {v : View}

theorem tips_stored (hv : Valid config h) (hvm : v ∈ h.views) :
    ∀ t ∈ v.tips, t ∈ h.node.store.headers := by
  intro t ht
  obtain ⟨c, hc, hct⟩ := List.mem_filterMap.mp ht
  exact (hv.chains v hvm c hc).2 t (List.mem_of_getLast? hct)

theorem chainTips_subset_tips (hv : Valid config h) (hvm : v ∈ h.views)
    (hfresh : v.generation = h.node.generationOf v.session) :
    ∀ t ∈ h.node.store.chainTips, t ∈ v.tips := by
  intro t ht
  obtain ⟨c, hc, hct⟩ := hv.tips v hvm hfresh t ht
  exact List.mem_filterMap.mpr ⟨c, hc, hct⟩

theorem bestHeader_most_work (hv : Valid config h) (hvm : v ∈ h.views)
    (hfresh : v.generation = h.node.generationOf v.session)
    (hz : ¬h.node.store.StoresZeroHash) :
    ∃ b, v.bestHeader h.node.store = .ok b ∧ b ∈ h.node.store.headers ∧
      ∀ r ∈ h.node.store.headers, r.work ≤ b.work := by
  have hcover := hv.chainTips_subset_tips hvm hfresh
  obtain ⟨t, ht, -⟩ := hv.headers.exists_chainTip_work_ge hz _ hv.headers.genesis_mem
  obtain ⟨b, hb⟩ := bestTip_isSome (List.ne_nil_of_mem (hcover t ht))
  obtain ⟨hbm, hbmax⟩ := bestTip_spec hb
  refine ⟨b, by simp only [View.bestHeader, hb], hv.tips_stored hvm b hbm, fun r hr => ?_⟩
  obtain ⟨t, ht, hrt⟩ := hv.headers.exists_chainTip_work_ge hz r hr
  exact hrt.trans (hbmax t (hcover t ht))

end Valid

/-- In every reachable state a view of the latest generation has a candidate ending at every chain
tip of the store, and its best header carries the most work of a chain tip; serving any request,
through any view, gives latest views whose best work is no less. Both need that no stored record
hashes to zero. -/
theorem latest_view_best_work {config : Config} {h : Handler} (hr : Reachable config h) {v : View}
    (hvm : v ∈ h.views) (hfresh : v.generation = h.node.generationOf v.session) :
    (∀ t ∈ h.node.store.chainTips, ∃ c ∈ v.chains, c.tip? = some t) ∧
    (h.node.store.StoresZeroHash ∨ ∃ b, v.bestHeader h.node.store = .ok b ∧
      (h.node.store.chainTips.map (·.work)).max? = some b.work) ∧
    ∀ (req : Request), ∀ u ∈ h.views, ∀ v' ∈ (h.serve req u).views,
      v'.generation = (h.serve req u).node.generationOf v'.session →
      (h.serve req u).node.store.StoresZeroHash ∨
        ∀ b b', v.bestHeader h.node.store = .ok b →
          v'.bestHeader (h.serve req u).node.store = .ok b' → b.work ≤ b'.work := by
  have hv := hr.valid
  refine ⟨hv.tips v hvm hfresh, ?_, fun req u hu v' hv'm hfresh' => ?_⟩
  · by_cases hz : h.node.store.StoresZeroHash
    · exact .inl hz
    obtain ⟨b, hb, hbs, hmax⟩ := hv.bestHeader_most_work hvm hfresh hz
    -- the best header's work is reached by a chain tip and passed by none
    obtain ⟨t, ht, hbt⟩ := hv.headers.exists_chainTip_work_ge hz b hbs
    have htb := hmax t (Store.mem_chainTips.mp ht).1
    refine .inr ⟨b, hb, List.max?_eq_some_iff.mpr ⟨?_, fun w hw => ?_⟩⟩
    · exact List.mem_map.mpr ⟨t, ht, le_antisymm htb hbt⟩
    · obtain ⟨t', ht', rfl⟩ := List.mem_map.mp hw
      exact hmax t' (Store.mem_chainTips.mp ht').1
  · have hserved := hv.serve hu req
    by_cases hz' : (h.serve req u).node.store.StoresZeroHash
    · exact .inl hz'
    refine .inr fun b b' hb hb' => ?_
    -- the later store holds the earlier one, so the earlier best header is stored in it
    have hz : ¬h.node.store.StoresZeroHash := fun ⟨r, hr', h0⟩ =>
      hz' ⟨r, hserved.headers_mono r hr', h0⟩
    obtain ⟨c, hc, hcs, -⟩ := hv.bestHeader_most_work hvm hfresh hz
    obtain ⟨c', hc', -, hmax'⟩ := hserved.valid.bestHeader_most_work hv'm hfresh' hz'
    cases hb.symm.trans hc
    cases hb'.symm.trans hc'
    exact hmax' b (hserved.headers_mono b hcs)

end BitcoinLight
