import BitcoinLight.Proofs.FilterChain
import BitcoinLight.Proofs.StoreIndex

set_option autoImplicit false

/-!
# Valid filter data is accepted

The checks on filter headers and filters are sound (`FilterStore`); here they are shown
complete. Take the blocks from a stored stop block down `n` heights, and a run of filter headers
chained from the hash of a stored filter header one height below them (the zero hash at
genesis). Then the run is accepted as long as no block has a stored filter header of another hash
and no checkpoint disagrees, and afterwards each block has the filter header of its link.

Three things make that so. The chain ending at the stop block is exactly those blocks, read
from a candidate chain or walked back through the block index, which names every stored record
(`Store.IndexCovers`). The link check finds each link's predecessor, in the run or stored, at the
height one below: links at heights that chain agree in height wherever they agree in hash,
unless two different links share a hash or one hashes to the zero hash (`LinksCollide`), which
takes a double SHA-256 collision or a preimage of zero. And the other checks ask only what the
run is given.

Filters with distinct blocks, each hashing to the filter hash its block's filter header commits
to, are accepted too, and afterwards each block has a filter: the one sent, or the one it had.
-/

namespace BitcoinLight

/-! ## Links at heights -/

/-- Two of these links are different but share a hash (a double SHA-256 collision), or one
hashes to the zero hash that a genesis link names (a preimage of zero). -/
def LinksCollide (ls : List FilterHeader) : Prop :=
  (∃ a ∈ ls, ∃ b ∈ ls, a.hash = b.hash ∧ a ≠ b) ∨ ∃ a ∈ ls, a.hash = Hash256.zero

/-- Links at heights that chain: each at height zero names the zero hash, each above names the
hash of a link one height below. -/
def LinksChain (ls : List (FilterHeader × Nat)) : Prop :=
  ∀ p ∈ ls, (p.2 = 0 → p.1.prevHeader = Hash256.zero) ∧
    (0 < p.2 → ∃ q ∈ ls, q.1.hash = p.1.prevHeader ∧ q.2 + 1 = p.2)

namespace LinksChain

variable {ls : List (FilterHeader × Nat)}

theorem link_eq_of_hash_eq (hnc : ¬LinksCollide (ls.map Prod.fst)) {p q : FilterHeader × Nat}
    (hp : p ∈ ls) (hq : q ∈ ls) (h : p.1.hash = q.1.hash) : p.1 = q.1 := by
  by_contra hne
  exact hnc (.inl ⟨p.1, List.mem_map_of_mem hp, q.1, List.mem_map_of_mem hq, h, hne⟩)

theorem prevHeader_ne_zero (hc : LinksChain ls) (hnc : ¬LinksCollide (ls.map Prod.fst))
    {p : FilterHeader × Nat} (hp : p ∈ ls) (h0 : 0 < p.2) : p.1.prevHeader ≠ Hash256.zero := by
  obtain ⟨q, hq, hqh, -⟩ := (hc p hp).2 h0
  exact fun hz => hnc (.inr ⟨q.1, List.mem_map_of_mem hq, hqh.trans hz⟩)

theorem height_eq_of_hash_eq (hc : LinksChain ls) (hnc : ¬LinksCollide (ls.map Prod.fst)) :
    ∀ n, ∀ p ∈ ls, p.2 = n → ∀ q ∈ ls, p.1.hash = q.1.hash → q.2 = n := by
  intro n
  -- on the height of the first: equal hashes give equal links, so the links below agree too
  induction n with
  | zero =>
    intro p hp hpn q hq hh
    by_contra h0
    have hprev : q.1.prevHeader = Hash256.zero := by
      rw [← link_eq_of_hash_eq hnc hp hq hh]
      exact (hc p hp).1 hpn
    exact prevHeader_ne_zero hc hnc hq (Nat.pos_of_ne_zero h0) hprev
  | succ n ih =>
    intro p hp hpn q hq hh
    have hlink := link_eq_of_hash_eq hnc hp hq hh
    obtain ⟨r, hr, hrh, hrn⟩ := (hc p hp).2 (by omega)
    have h0 : 0 < q.2 := Nat.pos_of_ne_zero fun h0 =>
      prevHeader_ne_zero hc hnc hp (by omega) (hlink ▸ (hc q hq).1 h0)
    obtain ⟨r', hr', hrh', hrn'⟩ := (hc q hq).2 h0
    have := ih r hr (by omega) r' hr' (by rw [hrh, hrh', hlink])
    omega

end LinksChain

theorem chainFilterHeaders_prev (prev : Hash256) : ∀ (hs : List Hash256) (k : Nat),
    ∀ p ∈ (chainFilterHeaders prev hs).zipIdx k, (p.1.prevHeader = prev ∧ p.2 = k) ∨
      ∃ q ∈ (chainFilterHeaders prev hs).zipIdx k, q.1.hash = p.1.prevHeader ∧ q.2 + 1 = p.2 := by
  -- by induction on the hashes, the first link naming `prev` for every starting hash
  suffices h : ∀ (hs : List Hash256) (prev : Hash256) (k : Nat),
      ∀ p ∈ (chainFilterHeaders prev hs).zipIdx k, (p.1.prevHeader = prev ∧ p.2 = k) ∨
        ∃ q ∈ (chainFilterHeaders prev hs).zipIdx k, q.1.hash = p.1.prevHeader ∧ q.2 + 1 = p.2 from
    fun hs k => h hs prev k
  intro hs
  induction hs with
  | nil => simp [chainFilterHeaders]
  | cons h rest ih =>
    intro prev k p hp
    simp only [chainFilterHeaders, List.zipIdx_cons, List.mem_cons] at hp ⊢
    rcases hp with rfl | hp
    · exact .inl ⟨rfl, rfl⟩
    · right
      rcases ih _ (k + 1) p hp with ⟨hprev, hk⟩ | ⟨q, hq, hqh, hqk⟩
      · exact ⟨_, .inl rfl, hprev.symm, by omega⟩
      · exact ⟨q, .inr hq, hqh, hqk⟩

/-! ## The block index names every record -/

def Store.IndexCovers (s : Store) : Prop := ∀ r ∈ s.headers, (r.height, r.hash) ∈ s.headerIndex

namespace Store.IndexCovers

variable {s s' : Store}

theorem putHeader (h : s.IndexCovers) (r : BlockRecord) : (s.putHeader r).IndexCovers := by
  have hgrow : ∀ e ∈ s.headerIndex, e ∈ (s.putHeader r).headerIndex := by
    intro e he
    simp only [Store.putHeader]
    split
    · exact he
    · exact List.mem_append_left _ he
  have hnew : (r.height, r.hash) ∈ (s.putHeader r).headerIndex := by
    simp only [Store.putHeader]
    split
    · rename_i hc
      exact List.contains_iff_mem.mp hc
    · exact List.mem_append_right _ (List.mem_singleton_self _)
  intro x hx
  rcases Store.mem_putHeader.mp hx with rfl | ⟨hx, -⟩
  · exact hnew
  · exact hgrow _ (h x hx)

theorem foldl_putHeader : ∀ (rs : List BlockRecord) (s : Store), s.IndexCovers →
    (rs.foldl Store.putHeader s).IndexCovers
  | [], _, h => h
  | r :: rs, _, h => foldl_putHeader rs _ (h.putHeader r)

theorem congr (h : s.IndexCovers) (h1 : s'.headers = s.headers)
    (h2 : s'.headerIndex = s.headerIndex) : s'.IndexCovers := by
  intro r hr
  rw [h2]
  exact h r (h1 ▸ hr)

end Store.IndexCovers

theorem Store.foldl_putFilterHeader_headerIndex : ∀ (fs : List FilterHeaderRecord) (s : Store),
    (fs.foldl Store.putFilterHeader s).headerIndex = s.headerIndex
  | [], _ => rfl
  | f :: fs, s => foldl_putFilterHeader_headerIndex fs (s.putFilterHeader f)

theorem Store.foldl_putFilter_headerIndex : ∀ (fs : List FilterRecord) (s : Store),
    (fs.foldl Store.putFilter s).headerIndex = s.headerIndex
  | [], _ => rfl
  | f :: fs, s => foldl_putFilter_headerIndex fs (s.putFilter f)

namespace Valid

variable {config : Config} {h : Handler} {v : View}

theorem indexCovers_serve (hv : Valid config h) (hc : h.node.store.IndexCovers) (hvm : v ∈ h.views)
    (req : Request) : (h.serve req v).node.store.IndexCovers := by
  obtain ⟨n, vs⟩ := h
  rcases Handler.serve_cases ⟨n, vs⟩ req v hv.headers.lowestNoWorkHeight_eq_none with
    ⟨v', n', hrun, hserve⟩ | hserve
  swap
  · rw [hserve]
    exact hc
  rw [hserve]
  dsimp only
  cases req with
  | headers hs =>
    rcases NodeStep.processHeaders_ok hrun with ⟨-, -, rfl⟩ | ⟨s', hcreate, -, rfl⟩
    · exact hc
    · rw [(Store.createAll_ok hcreate).1]
      exact Store.IndexCovers.foldl_putHeader _ _ hc
  | filterHeaders links stop =>
    obtain ⟨-, rfl | ⟨fresh, -, -, rfl⟩⟩ :=
      NodeStep.processFilterHeaders_ok (hv.chains v hvm) hv.headers.nodup hrun
    · exact hc
    · exact hc.congr (Store.foldl_putFilterHeader_frame fresh n.store).1
        (Store.foldl_putFilterHeader_headerIndex fresh n.store)
  | filters ms =>
    obtain ⟨-, rfl | ⟨fs, -, rfl⟩⟩ := NodeStep.processFilters_ok hrun
    · exact hc
    · exact hc.congr (Store.foldl_putFilter_frame fs n.store).1
        (Store.foldl_putFilter_headerIndex fs n.store)
  | checkpoints cps b =>
    obtain ⟨rfl, -⟩ := NodeStep.processCheckpoints_ok hrun
    exact hc
  | recalculateWork cancelled =>
    rw [Request.run, NodeStep.recalculateChainWork_of_none hv.headers.lowestNoWorkHeight_eq_none]
      at hrun
    cases hrun
    exact hc
  | syncing value =>
    rw [Request.run, NodeStep.setSyncing_apply] at hrun
    cases hrun
    exact hc
  | ibd value =>
    rw [Request.run, NodeStep.setIbd_apply] at hrun
    cases hrun
    exact hc

end Valid

theorem Reachable.indexCovers {config : Config} {h : Handler} (hr : Reachable config h) :
    h.node.store.IndexCovers := by
  induction hr with
  | opened hopen =>
    obtain ⟨rfl, -⟩ := NodeStep.openStore_empty hopen
    exact Store.IndexCovers.putHeader (fun r hr => by simp [Store.empty] at hr) _
  | serve req hr hvm ih => exact hr.valid.indexCovers_serve ih hvm req

/-! ## The blocks a run belongs to -/

theorem Linked.length_eq : ∀ {rs : List BlockRecord} {a b : BlockRecord}, Linked rs →
    rs.head? = some a → rs.getLast? = some b → rs.length = b.height - a.height + 1 ∧ a.height ≤ b.height
  | [], _, _, _, ha, _ => by simp at ha
  | [x], a, b, _, ha, hb => by
    simp only [List.head?_cons, Option.some.injEq, List.getLast?_singleton] at ha hb
    subst ha hb
    simp
  | x :: y :: rest, a, b, h, ha, hb => by
    simp only [List.head?_cons, Option.some.injEq] at ha
    subst ha
    rw [List.getLast?_cons_cons] at hb
    obtain ⟨hlen, hle⟩ := Linked.length_eq h.2 (List.head?_cons) hb
    have hf : y.height = x.height + 1 := h.1.1
    simp only [List.length_cons] at hlen ⊢
    omega

theorem Linked.follows_last {rs : List BlockRecord} {a x : BlockRecord} (h : Linked (rs ++ [x]))
    (ha : rs.getLast? = some a) : Follows a x := by
  rw [linked_iff_isChain, List.isChain_append] at h
  exact h.2.2 a (by simp [ha]) x (by simp)

theorem Linked.eq_of_getLast? {s : Store} (hnd : (s.headers.map (·.hash)).Nodup) :
    ∀ {rs qs : List BlockRecord}, Linked rs → Linked qs → (∀ r ∈ rs, r ∈ s.headers) →
      (∀ q ∈ qs, q ∈ s.headers) → rs.getLast? = qs.getLast? → rs.length = qs.length → rs = qs := by
  intro rs
  induction rs using List.reverseRecOn with
  | nil => intro qs _ _ _ _ _ hlen; exact (List.eq_nil_of_length_eq_zero hlen.symm).symm
  | append_singleton rs x ih =>
    intro qs hr hq hrs hqs hlast hlen
    obtain ⟨qs, y, rfl⟩ : ∃ qs' y, qs = qs' ++ [y] := by
      rcases List.eq_nil_or_concat qs with rfl | ⟨qs', y, rfl⟩
      · simp at hlen
      · exact ⟨qs', y, List.concat_eq_append⟩
    simp only [List.getLast?_append, List.getLast?_singleton, Option.some_or,
      Option.some.injEq] at hlast
    subst hlast
    simp only [List.length_append, List.length_singleton, Nat.add_right_cancel_iff] at hlen
    congr 1
    rcases hrl : rs.getLast? with _ | a
    · rw [List.getLast?_eq_none_iff] at hrl
      subst hrl
      exact (List.eq_nil_of_length_eq_zero hlen.symm).symm
    rcases hql : qs.getLast? with _ | b
    · rw [List.getLast?_eq_none_iff] at hql
      subst hql
      exact List.eq_nil_of_length_eq_zero hlen
    -- the records before `x` both have `x`'s parent hash, so they are the same stored record
    have hab : a = b := List.inj_on_of_nodup_map hnd
      (hrs a (List.mem_append_left _ (List.mem_of_getLast? hrl)))
      (hqs b (List.mem_append_left _ (List.mem_of_getLast? hql)))
      (((hr.follows_last hrl).2.symm).trans (hq.follows_last hql).2)
    subst hab
    exact ih (hr.of_isPrefix (List.prefix_append _ _)) (hq.of_isPrefix (List.prefix_append _ _))
      (fun r h => hrs r (List.mem_append_left _ h)) (fun q h => hqs q (List.mem_append_left _ h))
      (hrl.trans hql.symm) hlen

theorem Chain.walkFrom_length {lookup : Hash256 → Option BlockRecord} {K : BlockRecord → Prop}
    {lo : Nat} (hl : ∀ r, K r → lo < r.height →
      ∃ p, lookup r.prevHash = some p ∧ p.height + 1 = r.height ∧ K p) :
    ∀ (fuel : Nat) (oldest : BlockRecord) (acc : List BlockRecord), K oldest →
      lo + fuel ≤ oldest.height → (Chain.walkFrom lookup fuel oldest acc).length = acc.length + fuel
  | 0, _, _, _, _ => rfl
  | fuel + 1, oldest, acc, hK, hle => by
    obtain ⟨p, hp, hph, hKp⟩ := hl oldest hK (by omega)
    rw [Chain.walkFrom, if_neg (by omega), hp]
    simp only [hph, ↓reduceIte]
    rw [Chain.walkFrom_length hl fuel p (p :: acc) hKp (by omega), List.length_cons]
    omega

theorem Chain.walkFrom_length_to_genesis {lookup : Hash256 → Option BlockRecord}
    {K : BlockRecord → Prop} (hl : ∀ r, K r → 0 < r.height →
      ∃ p, lookup r.prevHash = some p ∧ p.height + 1 = r.height ∧ K p) :
    ∀ (fuel : Nat) (oldest : BlockRecord) (acc : List BlockRecord), K oldest →
      oldest.height ≤ fuel →
        (Chain.walkFrom lookup fuel oldest acc).length = acc.length + oldest.height
  | 0, oldest, acc, _, h0 => by
    rw [Chain.walkFrom]
    omega
  | fuel + 1, oldest, acc, hK, hle => by
    by_cases h0 : oldest.height = 0
    · rw [Chain.walkFrom, if_pos h0]
      omega
    obtain ⟨p, hp, hph, hKp⟩ := hl oldest hK (by omega)
    rw [Chain.walkFrom, if_neg h0, hp]
    simp only [hph, ↓reduceIte]
    rw [Chain.walkFrom_length_to_genesis hl fuel p (p :: acc) hKp (by omega), List.length_cons]
    omega

theorem Store.lookupIn_betweenHeights_parent {s : Store} (hnd : (s.headers.map (·.hash)).Nodup)
    (hcov : s.IndexCovers) {lo hi : Nat} {r p : BlockRecord} (hp : p ∈ s.headers)
    (hfp : Follows p r) (hlo : lo ≤ p.height) (hhi : p.height ≤ hi) :
    Store.lookupIn (s.betweenHeights lo hi) r.prevHash = some p := by
  have hpin : p ∈ s.betweenHeights lo hi := by
    refine List.mem_filterMap.mpr ⟨p.hash, ?_, Store.findByHash_of_mem hnd hp⟩
    rw [keysBetween_eq _ (by omega), List.mem_map]
    refine ⟨(p.height, p.hash), List.mem_mergeSort.mpr (List.mem_filter.mpr ⟨hcov p hp, ?_⟩), rfl⟩
    simp only [Bool.and_eq_true, decide_eq_true_eq]
    omega
  obtain ⟨q, hq⟩ : ∃ q, Store.lookupIn (s.betweenHeights lo hi) r.prevHash = some q := by
    refine Option.isSome_iff_exists.mp ?_
    simp only [Store.lookupIn, List.find?_isSome, List.mem_reverse, beq_iff_eq]
    exact ⟨p, hpin, hfp.2.symm⟩
  -- what is found has the parent's hash, so it is the parent
  obtain ⟨hqh, hqm⟩ := Store.lookupIn_spec hq
  rwa [List.inj_on_of_nodup_map hnd (Store.mem_betweenHeights hqm) hp (hqh.trans hfp.2)] at hq

theorem Store.depthFloor_of_le {height len : Nat} (hlen : len ≤ 2 ^ 32) :
    Store.depthFloor height len = height - (len - 1) := by
  rw [Store.depthFloor, Nat.mod_eq_of_lt (by omega)]

theorem Store.lookupIn_parent_step {s : Store} (hnd : (s.headers.map (·.hash)).Nodup)
    (hcov : s.IndexCovers) (hpar : ∀ r ∈ s.headers, 0 < r.height → ∃ p ∈ s.headers, Follows p r) {lo hi : Nat} :
    ∀ r, r ∈ s.headers ∧ r.height ≤ hi → lo < r.height →
      ∃ p, Store.lookupIn (s.betweenHeights lo hi) r.prevHash = some p ∧ p.height + 1 = r.height ∧
        (p ∈ s.headers ∧ p.height ≤ hi) := by
  intro r hr hlo
  obtain ⟨p, hp, hfp⟩ := hpar r hr.1 (by omega)
  have hph := hfp.1
  exact ⟨p, Store.lookupIn_betweenHeights_parent hnd hcov hp hfp (by omega) (by omega), hph.symm,
    hp, by omega⟩

theorem Store.chainTo_length {s : Store} (hnd : (s.headers.map (·.hash)).Nodup)
    (hcov : s.IndexCovers) (hpar : ∀ r ∈ s.headers, 0 < r.height → ∃ p ∈ s.headers, Follows p r) {tip : BlockRecord}
    (htip : tip ∈ s.headers) {len : Nat} (hlen : 0 < len) (h32 : len ≤ 2 ^ 32) :
    (s.chainTo tip len).length = min len (tip.height + 1) := by
  have hstep :=
    @Store.lookupIn_parent_step s hnd hcov hpar (Store.depthFloor tip.height len) tip.height
  rw [Chain.length, Store.chainTo, Chain.walkBack]
  dsimp only
  by_cases hle : len ≤ tip.height + 1
  · -- the walk stops at the floor, `len - 1` heights down
    rw [Chain.walkFrom_length hstep (len - 1) tip [tip] ⟨htip, le_rfl⟩
      (by rw [Store.depthFloor_of_le h32]; omega), List.length_singleton]
    omega
  · -- the floor is genesis, and the walk stops there
    rw [Store.depthFloor_of_le h32, show tip.height - (len - 1) = 0 by omega] at hstep ⊢
    rw [Chain.walkFrom_length_to_genesis (fun r hr h0 => hstep r hr h0) (len - 1) tip [tip]
      ⟨htip, le_rfl⟩ (by omega), List.length_singleton]
    omega

namespace View

variable {s : Store} {v : View}

theorem prefixThrough_tip? (hcs : ∀ c ∈ v.chains, s.HoldsChain c)
    (hnd : (s.headers.map (·.hash)).Nodup) {stop : BlockRecord} (hstop : stop ∈ s.headers)
    {c p : Chain} (hc : c ∈ v.chains) (hp : c.prefixThrough stop.hash = some p) :
    Linked p.records ∧ p.tip? = some stop := by
  obtain ⟨hpre, t, ht, hth⟩ := Chain.prefixThrough_spec hp
  have htm : t ∈ s.headers := (hcs c hc).2 t (hpre.subset (List.mem_of_getLast? ht))
  rw [← List.inj_on_of_nodup_map hnd htm hstop hth]
  exact ⟨Chain.linked_prefixThrough (hcs c hc).1 hp, ht⟩

theorem chainEndingAt_length_eq_min (hcs : ∀ c ∈ v.chains, s.HoldsChain c)
    (hnd : (s.headers.map (·.hash)).Nodup) (hcov : s.IndexCovers)
    (hpar : ∀ r ∈ s.headers, 0 < r.height → ∃ p ∈ s.headers, Follows p r) {tip : BlockRecord}
    (htip : tip ∈ s.headers) {len : Nat} (hlen : 0 < len) (h32 : len ≤ 2 ^ 32) :
    (v.chainEndingAt s tip len).length = min len (tip.height + 1) := by
  rcases chainEndingAt_cases (v := v) (s := s) tip hlen with ⟨c, hc, p, hp, hfirst, heq⟩ | heq
  · -- a candidate's prefix through the block, from at or below the floor, cut to the length
    obtain ⟨hpl, ht⟩ := prefixThrough_tip? hcs hnd htip hc hp
    obtain ⟨f, hf, hfh⟩ := (Option.any_eq_true _ _).mp hfirst
    obtain ⟨hplen, -⟩ := Linked.length_eq hpl hf ht
    simp only [decide_eq_true_eq, Store.depthFloor_of_le h32] at hfh
    rw [heq, Chain.length, Chain.trim_records, List.length_drop]
    simp only [Chain.length]
    omega
  · rw [heq]
    exact Store.chainTo_length hnd hcov hpar htip hlen h32

theorem chainEndingAt_tip? (hcs : ∀ c ∈ v.chains, s.HoldsChain c)
    (hnd : (s.headers.map (·.hash)).Nodup) {stop : BlockRecord} (hstop : stop ∈ s.headers)
    {n : Nat} (hn : 0 < n) : (v.chainEndingAt s stop n).tip? = some stop := by
  rcases chainEndingAt_cases (v := v) (s := s) stop hn with ⟨c, hc, p, hp, -, heq⟩ | heq
  · rw [heq, Chain.tip?_trim _ hn]
    exact (prefixThrough_tip? hcs hnd hstop hc hp).2
  · rw [heq]
    exact Store.tip?_chainTo s stop n

theorem chainEndingAt_records (hcs : ∀ c ∈ v.chains, s.HoldsChain c)
    (hnd : (s.headers.map (·.hash)).Nodup) (hcov : s.IndexCovers)
    (hpar : ∀ r ∈ s.headers, 0 < r.height → ∃ p ∈ s.headers, Follows p r)
    {blocks : List BlockRecord} {stop : BlockRecord} (hlk : Linked blocks)
    (hst : ∀ b ∈ blocks, b ∈ s.headers) (hlast : blocks.getLast? = some stop)
    (h32 : stop.height < 2 ^ 32) : (v.chainEndingAt s stop blocks.length).records = blocks := by
  have hstop : stop ∈ s.headers := hst stop (List.mem_of_getLast? hlast)
  obtain ⟨first, hfirst⟩ : ∃ f, blocks.head? = some f :=
    Option.isSome_iff_exists.mp (by simp [List.ne_nil_of_mem (List.mem_of_getLast? hlast)])
  obtain ⟨hlen, -⟩ := Linked.length_eq hlk hfirst hlast
  have hheld := holdsChain_chainEndingAt hcs hstop blocks.length
  -- the run is at most as long as its last block's height allows, so the chain takes all of it
  have hclen : (v.chainEndingAt s stop blocks.length).records.length = blocks.length := by
    have hl := chainEndingAt_length_eq_min (v := v) hcs hnd hcov hpar hstop
      (show 0 < blocks.length by omega) (by omega)
    simp only [Chain.length] at hl
    omega
  refine Linked.eq_of_getLast? hnd hheld.1 hlk hheld.2 hst ?_ hclen
  rw [hlast]
  exact chainEndingAt_tip? hcs hnd hstop (by omega)

/-! ## Each check passes -/

theorem addNewFilterHeader_eq {acc : List FilterHeaderRecord} {f : FilterHeaderRecord}
    (hsame : ∀ e, s.filterHeaderOf f.blockHash = some e → e.hash = f.hash) :
    addNewFilterHeader s acc f =
      .ok (acc ++ [f].filter fun f => (s.filterHeaderOf f.blockHash).isNone) := by
  unfold addNewFilterHeader
  rcases he : s.filterHeaderOf f.blockHash with _ | e
  · simp [he]
  · simp [he, hsame e he]

theorem newFilterHeaders_eq {batch : List FilterHeaderRecord}
    (hsame : ∀ f ∈ batch, ∀ e, s.filterHeaderOf f.blockHash = some e → e.hash = f.hash) :
    newFilterHeaders s batch = .ok (batch.filter fun f => (s.filterHeaderOf f.blockHash).isNone) := by
  suffices h : ∀ (bs acc : List FilterHeaderRecord), (∀ f ∈ bs, f ∈ batch) →
      bs.foldlM (addNewFilterHeader s) acc =
        .ok (acc ++ bs.filter fun f => (s.filterHeaderOf f.blockHash).isNone) by
    unfold newFilterHeaders
    simpa using h batch [] fun _ hf => hf
  intro bs
  induction bs with
  | nil => intro acc _; simp [pure, Except.pure]
  | cons f bs ih =>
    intro acc hbs
    rw [List.foldlM_cons, addNewFilterHeader_eq (hsame f (hbs f List.mem_cons_self))]
    simp only [bind, Except.bind]
    rw [ih _ fun g hg => hbs g (List.mem_cons_of_mem _ hg), List.filter_cons]
    split <;> simp_all

/-- A record passes the link check when it links to the zero hash at genesis, and above it, the
hash it links to is met earlier in the run or stored, and everything carrying that hash there
stands one height below it. -/
theorem filterLinkStep_eq_ok (hf : FilterStore s) {hs : List (Hash256 × Nat)}
    {f : FilterHeaderRecord} (h0 : f.height = 0 → f.prevHeader = Hash256.zero)
    (hpos : 0 < f.height →
      ((∃ e ∈ hs, e.1 = f.prevHeader) ∨ ∃ g ∈ s.filterHeaders, g.hash = f.prevHeader) ∧
      (∀ e ∈ hs, e.1 = f.prevHeader → e.2 + 1 = f.height) ∧
      ∀ g ∈ s.filterHeaders, g.hash = f.prevHeader → g.height + 1 = f.height) :
    filterLinkStep s hs f = .ok ((f.hash, f.height) :: hs) := by
  unfold filterLinkStep
  by_cases hz : f.height = 0
  · rw [if_pos hz, if_neg (not_not.mpr (h0 hz))]
  rw [if_neg hz]
  obtain ⟨hknown, hrun, hstored⟩ := hpos (Nat.pos_of_ne_zero hz)
  dsimp only
  split
  · rename_i k hprev
    -- the height found belongs to a record carrying the linked hash, in the run or stored
    have hk : k + 1 = f.height := by
      split at hprev
      · rename_i e' hfind
        cases hprev
        exact hrun _ (List.mem_of_find?_eq_some hfind) (by simpa using List.find?_some hfind)
      · obtain ⟨x, hx, rfl⟩ := Option.map_eq_some_iff.mp hprev
        obtain ⟨hxm, hxh⟩ := hf.findFilterHeader_spec hx
        exact hstored x hxm hxh
    rw [if_pos hk]
  · rename_i hprev
    exfalso
    split at hprev
    · cases hprev
    · rename_i hfind
      rcases hknown with ⟨e, he, heq⟩ | ⟨g, hg, hgh⟩
      · simpa [heq] using List.find?_eq_none.mp hfind e he
      · obtain ⟨x, hx⟩ := hf.findFilterHeader_isSome hg
        rw [hgh] at hx
        rw [hx] at hprev
        cases hprev

/-- A run, lowest first, passes the link checks when each record links to the zero hash at
genesis, and above it to a hash that a record of the run or of the store carries, every such
record standing one height below it. -/
theorem verifyFilterLinks_eq_ok (hf : FilterStore s) {fs : List FilterHeaderRecord}
    (hsorted : fs.Pairwise fun a b => a.height < b.height)
    (hgen : ∀ f ∈ fs, f.height = 0 → f.prevHeader = Hash256.zero)
    (hknown : ∀ f ∈ fs, 0 < f.height → ∃ g ∈ fs ++ s.filterHeaders, g.hash = f.prevHeader)
    (hbelow : ∀ f ∈ fs, 0 < f.height →
      ∀ g ∈ fs ++ s.filterHeaders, g.hash = f.prevHeader → g.height + 1 = f.height) :
    verifyFilterLinks s fs = .ok () := by
  -- the heights met so far are those of the records before, newest first
  have key : ∀ (bs pre : List FilterHeaderRecord), pre ++ bs = fs →
      bs.foldlM (filterLinkStep s) (pre.reverse.map fun g => (g.hash, g.height)) =
        .ok (fs.reverse.map fun g => (g.hash, g.height)) := by
    intro bs
    induction bs with
    | nil => intro pre hpre; simp only [List.append_nil] at hpre; subst hpre; rfl
    | cons f bs ih =>
      intro pre hpre
      have hfs : f ∈ fs := hpre ▸ List.mem_append_right _ List.mem_cons_self
      -- a record of the run below `f` comes before it
      have hbefore : ∀ g ∈ fs, g.height < f.height → g ∈ pre := by
        intro g hg hlt
        rw [← hpre, List.pairwise_append] at hsorted
        rw [← hpre, List.mem_append, List.mem_cons] at hg
        rcases hg with hg | rfl | hg
        · exact hg
        · omega
        · have := List.rel_of_pairwise_cons hsorted.2.1 hg
          omega
      have hstep : filterLinkStep s (pre.reverse.map fun g => (g.hash, g.height)) f =
          .ok ((pre ++ [f]).reverse.map fun g => (g.hash, g.height)) := by
        rw [List.reverse_append, List.reverse_singleton, List.singleton_append, List.map_cons]
        refine filterLinkStep_eq_ok hf (hgen f hfs) fun hpos => ⟨?_, ?_, ?_⟩
        · obtain ⟨g, hg, hgh⟩ := hknown f hfs hpos
          rcases List.mem_append.mp hg with hgf | hgs
          · have hgb := hbelow f hfs hpos g hg hgh
            exact .inl ⟨_, List.mem_map_of_mem (List.mem_reverse.mpr
              (hbefore g hgf (by omega))), hgh⟩
          · exact .inr ⟨g, hgs, hgh⟩
        · intro e he hef
          obtain ⟨g, hg, rfl⟩ := List.mem_map.mp he
          exact hbelow f hfs hpos g (List.mem_append_left _
            (hpre ▸ List.mem_append_left _ (List.mem_reverse.mp hg))) hef
        · exact fun g hg => hbelow f hfs hpos g (List.mem_append_right _ hg)
      rw [List.foldlM_cons, hstep]
      exact ih (pre ++ [f]) (by simp [hpre])
  unfold verifyFilterLinks
  rw [show ([] : List (Hash256 × Nat)) =
    (([] : List FilterHeaderRecord).reverse.map fun g => (g.hash, g.height)) from rfl,
    key fs [] rfl]
  rfl

theorem verifyCheckpoints_eq_ok {fs : List FilterHeaderRecord}
    (h : ∀ f ∈ fs, ∀ e, v.checkpointOf f.blockHash = some e → e = f.hash) :
    v.verifyCheckpoints fs = .ok () := by
  unfold verifyCheckpoints
  induction fs with
  | nil => rfl
  | cons f fs ih =>
    have hrest := ih fun g hg => h g (List.mem_cons_of_mem _ hg)
    simp only [List.forM, bind, Except.bind]
    rcases hc : v.checkpointOf f.blockHash with _ | e
    · exact hrest
    · simp only [h f List.mem_cons_self e hc, ne_eq, not_true_eq_false, ↓reduceIte]
      exact hrest

end View

theorem Store.createFilterHeaders_eq {s : Store} {fs : List FilterHeaderRecord}
    (h : ∀ f ∈ fs, s.filterHeaderOf f.blockHash = none) :
    s.createFilterHeaders fs = .ok (fs.foldl Store.putFilterHeader s) := by
  unfold Store.createFilterHeaders
  rw [List.find?_eq_none.mpr fun f hf => by simp [h f hf]]

/-! ## The run of a message -/

theorem length_chainFilterHeaders : ∀ (prev : Hash256) (hs : List Hash256),
    (chainFilterHeaders prev hs).length = hs.length
  | _, [] => rfl
  | _, _ :: rest => congrArg (· + 1) (length_chainFilterHeaders _ rest)

theorem Linked.map_height : ∀ {rs : List BlockRecord} {a : BlockRecord}, Linked rs →
    rs.head? = some a → rs.map (·.height) = List.range' a.height rs.length
  | [], _, _, _ => rfl
  | [x], a, _, ha => by
    simp only [List.head?_cons, Option.some.injEq] at ha
    subst ha
    rfl
  | x :: y :: rest, a, h, ha => by
    simp only [List.head?_cons, Option.some.injEq] at ha
    subst ha
    have hf : y.height = x.height + 1 := h.1.1
    rw [List.map_cons, Linked.map_height h.2 List.head?_cons, hf]
    simp only [List.length_cons, List.range'_succ]

theorem linksChain_stored_append {s : Store} (hf : FilterStore s) {prev : Hash256}
    {hashes : List Hash256} {k : Nat}
    (hprev : (k = 0 ∧ prev = Hash256.zero) ∨
      ∃ g ∈ s.filterHeaders, g.height + 1 = k ∧ g.hash = prev) :
    LinksChain (s.filterHeaders.map (fun g => (g.link, g.height)) ++
      (chainFilterHeaders prev hashes).zipIdx k) := by
  intro p hp
  rcases List.mem_append.mp hp with hp | hp
  · obtain ⟨g, hg, rfl⟩ := List.mem_map.mp hp
    refine ⟨hf.genesis_link g hg, fun h0 => ?_⟩
    obtain ⟨g', hg', hgh, hgn⟩ := hf.below g hg h0
    exact ⟨(g'.link, g'.height), List.mem_append_left _ (List.mem_map_of_mem hg'),
      (hf.link_hash g' hg').trans hgh, hgn⟩
  · rcases chainFilterHeaders_prev prev hashes k p hp with ⟨hpp, hpk⟩ | ⟨q, hq, hqh, hqn⟩
    · -- the first link names the zero hash at genesis, and a stored record one below otherwise
      rcases hprev with ⟨rfl, rfl⟩ | ⟨g, hg, hgk, rfl⟩
      · exact ⟨fun _ => hpp, fun h => by omega⟩
      · exact ⟨fun h0 => by omega, fun _ => ⟨(g.link, g.height), List.mem_append_left _
          (List.mem_map_of_mem hg), (hf.link_hash g hg).trans hpp.symm, by omega⟩⟩
    · exact ⟨fun h0 => by omega, fun _ => ⟨q, List.mem_append_right _ hq, hqh, hqn⟩⟩

namespace View

variable {s : Store} {v : View}

theorem filterHeaderBatch_links {links : List FilterHeader} {c : Chain} {first : BlockRecord}
    (hlk : Linked c.records) (hfirst : c.records.head? = some first)
    (hlen : c.records.length = links.length) :
    (filterHeaderBatch links c).map (fun f => (f.link, f.height)) = links.zipIdx first.height := by
  unfold filterHeaderBatch
  rw [List.map_map, List.zipIdx_eq_zip_range', ← hlen, ← hlk.map_height hfirst, List.zip_map_right]
  rfl

/-- The new records of a message's run pass the link checks: each link's predecessor is met earlier
in the run or stored, and whatever carries its hash stands one height below, unless links
collide. -/
theorem verifyFilterLinks_fresh (hf : FilterStore s) {batch : List FilterHeaderRecord}
    {prev : Hash256} {hashes : List Hash256} {k : Nat}
    (hlab : batch.map (fun f => (f.link, f.height)) = (chainFilterHeaders prev hashes).zipIdx k)
    (hhash : ∀ f ∈ batch, f.link.hash = f.hash)
    (hsame : ∀ f ∈ batch, ∀ e, s.filterHeaderOf f.blockHash = some e → e.hash = f.hash)
    (hprev : (k = 0 ∧ prev = Hash256.zero) ∨
      ∃ g ∈ s.filterHeaders, g.height + 1 = k ∧ g.hash = prev)
    (hnc : ¬LinksCollide (s.filterHeaders.map (·.link) ++ chainFilterHeaders prev hashes)) :
    verifyFilterLinks s (batch.filter fun f => (s.filterHeaderOf f.blockHash).isNone) = .ok () := by
  have hc : LinksChain (s.filterHeaders.map (fun g => (g.link, g.height)) ++
      (chainFilterHeaders prev hashes).zipIdx k) := linksChain_stored_append hf hprev
  set L := s.filterHeaders.map (fun g => (g.link, g.height)) ++
    (chainFilterHeaders prev hashes).zipIdx k
  have hnc' : ¬LinksCollide (L.map Prod.fst) := by
    rwa [List.map_append, List.map_map, List.zipIdx_map_fst]
  -- every record of the run and of the store stands in `L` with the link it hashes
  have hinb : ∀ f ∈ batch, (f.link, f.height) ∈ L := fun f hf' =>
    List.mem_append_right _ (hlab ▸ List.mem_map_of_mem hf')
  have hins : ∀ g ∈ s.filterHeaders, (g.link, g.height) ∈ L := fun g hg =>
    List.mem_append_left _ (List.mem_map_of_mem hg)
  have hsorted : batch.Pairwise fun a b => a.height < b.height := by
    have hh : batch.map (·.height) = List.range' k (chainFilterHeaders prev hashes).length := by
      rw [← List.zipIdx_map_snd, ← hlab, List.map_map]
      rfl
    exact List.pairwise_map.mp (hh ▸ List.pairwise_lt_range')
  have hfresh : ∀ f ∈ batch.filter (fun f => (s.filterHeaderOf f.blockHash).isNone), f ∈ batch :=
    fun f hf' => (List.mem_filter.mp hf').1
  -- the link below a new record is that of a new record or of a stored one
  have hknown : ∀ q ∈ L, ∃ g ∈ batch.filter (fun f => (s.filterHeaderOf f.blockHash).isNone) ++
      s.filterHeaders, g.hash = q.1.hash := by
    intro q hq
    rcases List.mem_append.mp hq with hq | hq
    · obtain ⟨g, hg, rfl⟩ := List.mem_map.mp hq
      exact ⟨g, List.mem_append_right _ hg, (hf.link_hash g hg).symm⟩
    · rw [← hlab] at hq
      obtain ⟨g, hg, rfl⟩ := List.mem_map.mp hq
      rcases he : s.filterHeaderOf g.blockHash with _ | e
      · exact ⟨g, List.mem_append_left _ (List.mem_filter.mpr ⟨hg, by simp [he]⟩),
          (hhash g hg).symm⟩
      · exact ⟨e, List.mem_append_right _ (Store.filterHeaderOf_spec he).1,
          (hsame g hg e he).trans (hhash g hg).symm⟩
  refine verifyFilterLinks_eq_ok hf (hsorted.filter _) (fun f hf' h0 => (hc _ (hinb f (hfresh f hf'))).1 h0)
    (fun f hf' hpos => ?_) (fun f hf' hpos g hg hgh => ?_)
  · obtain ⟨q, hq, hqh, -⟩ := (hc _ (hinb f (hfresh f hf'))).2 hpos
    obtain ⟨g, hg, hgq⟩ := hknown q hq
    exact ⟨g, hg, hgq.trans hqh⟩
  · obtain ⟨q, hq, hqh, hqn⟩ := (hc _ (hinb f (hfresh f hf'))).2 hpos
    -- `g` carries the linked hash, so it stands at the height of the link below
    have hgL : (g.link, g.height) ∈ L ∧ g.link.hash = g.hash := by
      rcases List.mem_append.mp hg with hg | hg
      · exact ⟨hinb g (hfresh g hg), hhash g (hfresh g hg)⟩
      · exact ⟨hins g hg, hf.link_hash g hg⟩
    have := LinksChain.height_eq_of_hash_eq hc hnc' q.2 q hq rfl _ hgL.1
      (by rw [hqh, hgL.2, hgh]; rfl)
    simp only at this
    omega

theorem requireHeader_eq (hcs : ∀ c ∈ v.chains, s.HoldsChain c)
    (hnd : (s.headers.map (·.hash)).Nodup) {stop : BlockRecord} (hstop : stop ∈ s.headers) :
    v.requireHeader s stop.hash = .ok stop := by
  obtain ⟨r, hr⟩ : ∃ r, v.header? s stop.hash = some r := by
    unfold header?
    split
    · exact ⟨_, rfl⟩
    · exact ⟨stop, Store.findByHash_of_mem hnd hstop⟩
  have hreq : v.requireHeader s stop.hash = .ok r := by
    unfold requireHeader
    rw [hr]
  obtain ⟨hrh, hrm⟩ := requireHeader_ok hreq
  have hrs : r ∈ s.headers := by
    rcases hrm with ⟨c, hc, hrc⟩ | hrs
    · exact (hcs c hc).2 r hrc
    · exact hrs
  rwa [List.inj_on_of_nodup_map hnd hrs hstop hrh] at hreq

theorem filterHeaderOf_foldl_fresh (hf : FilterStore s) {batch : List FilterHeaderRecord}
    (hnd : (batch.map (·.blockHash)).Nodup)
    (hsame : ∀ f ∈ batch, ∀ e, s.filterHeaderOf f.blockHash = some e → e.hash = f.hash) :
    ∀ f ∈ batch, ∃ e, ((batch.filter fun f => (s.filterHeaderOf f.blockHash).isNone).foldl
      Store.putFilterHeader s).filterHeaderOf f.blockHash = some e ∧ e.hash = f.hash := by
  have hmem := mem_foldl_write FilterHeaderRecord.blockHash Store.filterHeaders
    Store.putFilterHeader (fun _ _ _ => Store.mem_putFilterHeader)
    (batch.filter fun f => (s.filterHeaderOf f.blockHash).isNone) s
    ((List.filter_sublist.map FilterHeaderRecord.blockHash).nodup hnd)
    (fun x hx y hy => Store.filterHeaderOf_eq_none
      (Option.isNone_iff_eq_none.mp (List.mem_filter.mp hx).2) y hy)
  have hnd' := Store.nodup_foldl_putFilterHeader
    (batch.filter fun f => (s.filterHeaderOf f.blockHash).isNone) s hf.nodup
  intro f hfb
  rcases he : s.filterHeaderOf f.blockHash with _ | e
  · refine ⟨f, Store.filterHeaderOf_of_mem hnd' ((hmem f).mpr (.inr ?_)), rfl⟩
    exact List.mem_filter.mpr ⟨hfb, by simp [he]⟩
  · obtain ⟨hem, heb⟩ := Store.filterHeaderOf_spec he
    refine ⟨e, ?_, hsame f hfb e he⟩
    rw [← heb]
    exact Store.filterHeaderOf_of_mem hnd' ((hmem e).mpr (.inl hem))

end View

namespace NodeStep

variable {config : Config} {h : Handler} {v : View}

/-- The links of a message for a linked run of stored blocks ending at `stop`, chained from the
zero hash at genesis and from the hash of a stored record one height below otherwise, are
accepted when no block has a stored record of another hash and no checkpoint disagrees, unless
links collide; afterwards each block has the record of its link. -/
theorem processFilterHeaders_accepts (hv : Valid config h) (hvm : v ∈ h.views)
    (hcov : h.node.store.IndexCovers) {blocks : List BlockRecord} {first stop : BlockRecord}
    (hlk : Linked blocks) (hst : ∀ b ∈ blocks, b ∈ h.node.store.headers)
    (hfirst : blocks.head? = some first) (hlast : blocks.getLast? = some stop)
    (h32 : stop.height < 2 ^ 32) {prev : Hash256} {hashes : List Hash256}
    (hlen : hashes.length = blocks.length)
    (hprev : (first.height = 0 ∧ prev = Hash256.zero) ∨
      ∃ g ∈ h.node.store.filterHeaders, g.height + 1 = first.height ∧ g.hash = prev)
    (hnc : ¬LinksCollide (h.node.store.filterHeaders.map (·.link) ++ chainFilterHeaders prev hashes))
    (hsame : ∀ p ∈ (chainFilterHeaders prev hashes).zip blocks, ∀ e,
      h.node.store.filterHeaderOf p.2.hash = some e → e.hash = p.1.hash)
    (hcp : ∀ p ∈ (chainFilterHeaders prev hashes).zip blocks, ∀ e,
      v.checkpointOf p.2.hash = some e → e = p.1.hash) :
    ∃ n', processFilterHeaders v (chainFilterHeaders prev hashes) stop.hash h.node = .ok v n' ∧
      ∀ p ∈ (chainFilterHeaders prev hashes).zip blocks, ∃ e,
        n'.store.filterHeaderOf p.2.hash = some e ∧ e.hash = p.1.hash := by
  have hcs := hv.chains v hvm
  have hnd := hv.headers.nodup
  have hll : (chainFilterHeaders prev hashes).length = blocks.length :=
    (length_chainFilterHeaders prev hashes).trans hlen
  have hpos : 0 < blocks.length :=
    List.length_pos_iff.mpr (List.ne_nil_of_mem (List.mem_of_getLast? hlast))
  have hstop : stop ∈ h.node.store.headers := hst stop (List.mem_of_getLast? hlast)
  -- the chain ending at the stop block is the run of blocks
  have hchain : v.chainEndingAt h.node.store stop (chainFilterHeaders prev hashes).length =
      ⟨blocks⟩ := by
    rw [hll]
    exact congrArg Chain.mk
      (View.chainEndingAt_records hcs hnd hcov hv.headers.hasParents hlk hst hlast h32)
  -- each record of the run is the record of a link for its block
  have hmem : ∀ f ∈ View.filterHeaderBatch (chainFilterHeaders prev hashes) ⟨blocks⟩,
      ∃ p ∈ (chainFilterHeaders prev hashes).zip blocks,
        f = FilterHeaderRecord.ofLink p.1 p.2.hash p.2.height := fun f hf =>
    (List.mem_map.mp hf).imp fun _ hp => ⟨hp.1, hp.2.symm⟩
  have hsame' : ∀ f ∈ View.filterHeaderBatch (chainFilterHeaders prev hashes) ⟨blocks⟩, ∀ e,
      h.node.store.filterHeaderOf f.blockHash = some e → e.hash = f.hash := by
    intro f hf e he
    obtain ⟨p, hp, rfl⟩ := hmem f hf
    exact hsame p hp e he
  have hhash : ∀ f ∈ View.filterHeaderBatch (chainFilterHeaders prev hashes) ⟨blocks⟩,
      f.link.hash = f.hash := by
    intro f hf
    obtain ⟨p, hp, rfl⟩ := hmem f hf
    rfl
  have hbnd : ((View.filterHeaderBatch (chainFilterHeaders prev hashes) ⟨blocks⟩).map
      (·.blockHash)).Nodup := View.nodup_filterHeaderBatch hll.symm
    ((show h.node.store.HoldsChain ⟨blocks⟩ from ⟨hlk, hst⟩).nodup_hash hnd)
  have hpost := View.filterHeaderOf_foldl_fresh hv.filters hbnd hsame'
  have hafter : ∀ p ∈ (chainFilterHeaders prev hashes).zip blocks,
      FilterHeaderRecord.ofLink p.1 p.2.hash p.2.height ∈
        View.filterHeaderBatch (chainFilterHeaders prev hashes) ⟨blocks⟩ :=
    fun p hp => List.mem_map_of_mem hp
  rw [processFilterHeaders_apply, if_neg (by rw [List.isEmpty_iff_length_eq_zero, hll]; omega),
    View.requireHeader_eq hcs hnd hstop]
  dsimp only
  rw [hchain, if_neg (by simp [Chain.length, hll]), View.newFilterHeaders_eq hsame']
  dsimp only
  split
  · -- every block has its record already
    rename_i hempty
    refine ⟨h.node, rfl, fun p hp => ?_⟩
    have := hpost _ (hafter p hp)
    rwa [List.isEmpty_iff.mp hempty, List.foldl_nil] at this
  · rw [View.verifyFilterLinks_fresh hv.filters
      (View.filterHeaderBatch_links (c := ⟨blocks⟩) hlk hfirst hll.symm) hhash hsame' hprev hnc]
    dsimp only
    rw [View.verifyCheckpoints_eq_ok fun f hf => ?_]
    · dsimp only
      rw [Store.createFilterHeaders_eq fun f hf => by simpa using (List.mem_filter.mp hf).2]
      exact ⟨_, rfl, fun p hp => hpost _ (hafter p hp)⟩
    · obtain ⟨p, hp, rfl⟩ := hmem f (List.mem_filter.mp hf).1
      exact hcp p hp

end NodeStep

/-! ## Filters -/

theorem mapM_eq_ok_map {α β ε : Type} {g : α → Except ε β} {f : α → β} :
    ∀ {xs : List α}, (∀ x ∈ xs, g x = .ok (f x)) → xs.mapM g = .ok (xs.map f)
  | [], _ => rfl
  | x :: xs, h => by
    simp only [List.mapM_cons, bind, Except.bind, h x List.mem_cons_self,
      mapM_eq_ok_map fun x' hx' => h x' (List.mem_cons_of_mem _ hx'), List.map_cons, pure,
      Except.pure]

namespace Store

variable {s : Store}

theorem mem_putFilter {f x : FilterRecord} :
    x ∈ (s.putFilter f).filters ↔ x = f ∨ x ∈ s.filters ∧ x.blockHash ≠ f.blockHash := by
  simp [putFilter]

theorem filterOf_spec {b : Hash256} {f : FilterRecord} (h : s.filterOf b = some f) :
    f ∈ s.filters ∧ f.blockHash = b :=
  ⟨List.mem_of_find?_eq_some h, by simpa using List.find?_some h⟩

theorem filterOf_eq_none {b : Hash256} (h : s.filterOf b = none) :
    ∀ f ∈ s.filters, f.blockHash ≠ b := by
  intro f hf hb
  simpa [hb] using List.find?_eq_none.mp h f hf

theorem contains_filtersOf {bs : List Hash256} {b : Hash256} (hb : b ∈ bs) :
    ((s.filtersOf bs).map (·.blockHash)).contains b = (s.filterOf b).isSome := by
  rw [Bool.eq_iff_iff, List.contains_iff_mem, Option.isSome_iff_exists]
  constructor
  · rintro hm
    obtain ⟨f, hf, rfl⟩ := List.mem_map.mp hm
    obtain ⟨b', -, hb'⟩ := List.mem_filterMap.mp hf
    exact ⟨f, (filterOf_spec hb').2 ▸ hb'⟩
  · rintro ⟨f, hf⟩
    exact List.mem_map.mpr ⟨f, List.mem_filterMap.mpr ⟨b, hb, hf⟩, (filterOf_spec hf).2⟩

theorem createFilters_eq {fs : List FilterRecord} (h : ∀ f ∈ fs, s.filterOf f.blockHash = none) :
    s.createFilters fs = .ok (fs.foldl putFilter s) := by
  unfold createFilters
  rw [List.find?_eq_none.mpr fun f hf => by simp [h f hf]]

end Store

namespace View

variable {s : Store}

theorem repeatedBlock_eq_none {ms : List FilterMessage} (hnd : (ms.map (·.blockHash)).Nodup) :
    repeatedBlock ms = none := by
  -- the blocks seen so far are those of the messages before, none of which comes again
  suffices h : ∀ (ms : List FilterMessage) (seen : List Hash256), (ms.map (·.blockHash)).Nodup →
      (∀ m ∈ ms, m.blockHash ∉ seen) → repeatedBlock.go seen ms = none from
    h ms [] hnd (by simp)
  intro ms
  induction ms with
  | nil => intro _ _ _; rfl
  | cons m ms ih =>
    intro seen hnd hnew
    rw [List.map_cons, List.nodup_cons] at hnd
    rw [repeatedBlock.go, if_neg (by simpa using hnew m List.mem_cons_self)]
    refine ih _ hnd.2 fun m' hm' hin => ?_
    rcases List.mem_cons.mp hin with heq | hin
    · exact hnd.1 (heq ▸ List.mem_map_of_mem hm')
    · exact hnew m' (List.mem_cons_of_mem _ hm') hin

theorem filterOfMessage_eq {m : FilterMessage} {g : FilterHeaderRecord}
    (hg : s.filterHeaderOf m.blockHash = some g) (hh : g.filterHash = filterHash m.bytes) :
    filterOfMessage s m = .ok (FilterRecord.ofBytes m.bytes m.blockHash g.height) := by
  unfold filterOfMessage
  rw [hg]
  dsimp only
  rw [if_neg (by simp [FilterRecord.ofBytes, hh])]

theorem filterOf_foldl_pending (hf : FilterStore s) {ms : List FilterMessage}
    (hnd : (ms.map (·.blockHash)).Nodup) (F : FilterMessage → FilterRecord)
    (hF : ∀ m, (F m).blockHash = m.blockHash ∧ (F m).bytes = m.bytes) (fs : List FilterRecord)
    (hfs : fs.Perm ((ms.filter fun m => (s.filterOf m.blockHash).isNone).map F)) :
    ∀ m ∈ ms, ∃ x, (fs.foldl Store.putFilter s).filterOf m.blockHash = some x ∧
      (x.bytes = m.bytes ∨ x ∈ s.filters) := by
  have hpend : ∀ x ∈ fs, ∃ m ∈ ms, s.filterOf m.blockHash = none ∧ x = F m := by
    intro x hx
    obtain ⟨m, hm, rfl⟩ := List.mem_map.mp (hfs.subset hx)
    obtain ⟨hmm, hmn⟩ := List.mem_filter.mp hm
    exact ⟨m, hmm, Option.isNone_iff_eq_none.mp hmn, rfl⟩
  have hfnd : (fs.map (·.blockHash)).Nodup := by
    refine (hfs.map _).nodup_iff.mpr ?_
    rw [List.map_map, show ((·.blockHash) ∘ F) = (·.blockHash) from funext fun m => (hF m).1]
    exact (List.filter_sublist.map _).nodup hnd
  have hmem := mem_foldl_write FilterRecord.blockHash Store.filters Store.putFilter
    (fun _ _ _ => Store.mem_putFilter) fs s hfnd fun x hx y hy => by
      obtain ⟨m, -, hmn, rfl⟩ := hpend x hx
      exact (hF m).1 ▸ Store.filterOf_eq_none hmn y hy
  have hnd' := Store.nodup_foldl_putFilter fs s hf.filters_nodup
  intro m hm
  rcases hx : s.filterOf m.blockHash with _ | x
  · -- the message's own filter was written
    have hFm : F m ∈ fs :=
      hfs.mem_iff.mpr (List.mem_map_of_mem (List.mem_filter.mpr ⟨hm, by simp [hx]⟩))
    refine ⟨F m, ?_, .inl (hF m).2⟩
    rw [← (hF m).1]
    exact Store.filterOf_of_mem hnd' ((hmem _).mpr (.inr hFm))
  · -- the stored filter stays
    obtain ⟨hxm, hxb⟩ := Store.filterOf_spec hx
    refine ⟨x, ?_, .inr hxm⟩
    rw [← hxb]
    exact Store.filterOf_of_mem hnd' ((hmem x).mpr (.inl hxm))

end View

namespace NodeStep

variable {v : View}

theorem processFilters_accepts {n : Node} (hf : FilterStore n.store) {ms : List FilterMessage}
    (hnd : (ms.map (·.blockHash)).Nodup)
    (hfh : ∀ m ∈ ms, ∃ g, n.store.filterHeaderOf m.blockHash = some g ∧
      g.filterHash = filterHash m.bytes) :
    ∃ n', processFilters v ms n = .ok v n' ∧ ∀ m ∈ ms, ∃ f,
      n'.store.filterOf m.blockHash = some f ∧ (f.bytes = m.bytes ∨ f ∈ n.store.filters) := by
  -- each message's filter, at the height of its block's filter header
  let F : FilterMessage → FilterRecord := fun m => FilterRecord.ofBytes m.bytes m.blockHash
    (((n.store.filterHeaderOf m.blockHash).map (·.height)).getD 0)
  have hpending : (ms.filter fun m =>
      !((n.store.filtersOf (ms.map (·.blockHash))).map (·.blockHash)).contains m.blockHash) =
      ms.filter fun m => (n.store.filterOf m.blockHash).isNone := by
    refine List.filter_congr fun m hm => ?_
    rw [Store.contains_filtersOf (List.mem_map_of_mem hm)]
    cases n.store.filterOf m.blockHash <;> rfl
  have hmap : (ms.filter fun m => (n.store.filterOf m.blockHash).isNone).mapM
      (View.filterOfMessage n.store) =
      .ok ((ms.filter fun m => (n.store.filterOf m.blockHash).isNone).map F) := by
    refine mapM_eq_ok_map fun m hm => ?_
    obtain ⟨g, hg, hgh⟩ := hfh m (List.mem_filter.mp hm).1
    rw [View.filterOfMessage_eq hg hgh]
    simp [F, hg]
  have hpost := View.filterOf_foldl_pending hf hnd F fun m => ⟨rfl, rfl⟩
  rw [processFilters_apply]
  split
  · rename_i hempty
    refine ⟨n, rfl, fun m hm => ?_⟩
    simp [List.isEmpty_iff.mp hempty] at hm
  rw [View.repeatedBlock_eq_none hnd]
  dsimp only
  rw [hpending]
  split
  · -- every block has its filter already
    rename_i hempty
    refine ⟨n, rfl, ?_⟩
    have := hpost [] (by rw [List.isEmpty_iff.mp hempty]; rfl)
    simpa using this
  · rw [hmap]
    dsimp only
    rw [Store.createFilters_eq fun f hf => ?_]
    · exact ⟨_, rfl, hpost _ (List.mergeSort_perm _ _)⟩
    · obtain ⟨m, hm, rfl⟩ := List.mem_map.mp (List.mem_mergeSort.mp hf)
      exact Option.isNone_iff_eq_none.mp (List.mem_filter.mp hm).2

end NodeStep

/-! ## Valid filter data is accepted -/

/-- In every reachable state, through any view: take a linked run of stored blocks from `first`
up to `stop`, and links chained from the zero hash when `first` is genesis and from the hash of a
stored filter header one height below it otherwise, one link per block. When no block has a
stored filter header of another hash and no checkpoint of the view disagrees, the links are
accepted, unless they collide with each other or with the stored ones, and afterwards each block
has a filter header with its link's hash. Filters for distinct blocks, each hashing to the filter
hash its block's filter header commits to, are accepted too, and afterwards each block has a
filter: the one sent, or the one it had. -/
theorem valid_filter_data_accepted {config : Config} {h : Handler} (hr : Reachable config h)
    {v : View} (hvm : v ∈ h.views) :
    (∀ (blocks : List BlockRecord) (first stop : BlockRecord) (prev : Hash256)
        (hashes : List Hash256), Linked blocks → (∀ b ∈ blocks, b ∈ h.node.store.headers) →
      blocks.head? = some first → blocks.getLast? = some stop → stop.height < 2 ^ 32 →
      hashes.length = blocks.length →
      ((first.height = 0 ∧ prev = Hash256.zero) ∨
        ∃ g ∈ h.node.store.filterHeaders, g.height + 1 = first.height ∧ g.hash = prev) →
      (∀ p ∈ (chainFilterHeaders prev hashes).zip blocks, ∀ e,
        h.node.store.filterHeaderOf p.2.hash = some e → e.hash = p.1.hash) →
      (∀ p ∈ (chainFilterHeaders prev hashes).zip blocks, ∀ e,
        v.checkpointOf p.2.hash = some e → e = p.1.hash) →
      ¬LinksCollide (h.node.store.filterHeaders.map (·.link) ++ chainFilterHeaders prev hashes) →
      ∃ n', NodeStep.processFilterHeaders v (chainFilterHeaders prev hashes) stop.hash h.node = .ok v n' ∧
        ∀ p ∈ (chainFilterHeaders prev hashes).zip blocks, ∃ e,
          n'.store.filterHeaderOf p.2.hash = some e ∧ e.hash = p.1.hash) ∧
    ∀ ms : List FilterMessage, (ms.map (·.blockHash)).Nodup →
      (∀ m ∈ ms, ∃ g, h.node.store.filterHeaderOf m.blockHash = some g ∧
        g.filterHash = filterHash m.bytes) →
      ∃ n', NodeStep.processFilters v ms h.node = .ok v n' ∧ ∀ m ∈ ms, ∃ f,
        n'.store.filterOf m.blockHash = some f ∧ (f.bytes = m.bytes ∨ f ∈ h.node.store.filters) := by
  have hv := hr.valid
  refine ⟨fun blocks first stop prev hashes hlk hst hfirst hlast h32 hlen hprev hsame hcp hnc => ?_,
    fun ms hnd hfh => NodeStep.processFilters_accepts hv.filters hnd hfh⟩
  exact NodeStep.processFilterHeaders_accepts hv hvm hr.indexCovers hlk hst hfirst hlast h32 hlen
    hprev hnc hsame hcp

end BitcoinLight
