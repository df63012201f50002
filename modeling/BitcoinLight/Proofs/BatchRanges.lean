import BitcoinLight.Proofs.Ancestry
import BitcoinLight.Proofs.BestChain

set_option autoImplicit false

/-!
# Sync ranges over the block tree

A node syncs headers and filters in ranges of heights, each named by its first height and the
block it stops at. A range toward a stop block begins at genesis, or just above the highest
block that the previous range's stop and the stop block have in common; it covers at most the
batch size of heights, and ends at the ancestor of the stop block at its last height.

Ancestry is read off the store (`Store.IsAncestor`): a block is its own ancestor, and an ancestor
of a block's stored parent is one of the block's. In a store of distinct hashes whose records
above genesis all have their parent stored, each block has one ancestor at each height up to its
own, and the walk back from a block finds exactly those. The lock-step walk of two blocks to
their parents therefore stops at their highest common ancestor (`commonAncestorHeight_spec`).

The main results: successive header ranges toward a stop block at height `H` cut the heights
`0..H` into ⌈(H+1)/b⌉ ranges of `b`, the last one shorter, each ending at the stop block's
ancestor, and then the run stops; after a stop on another branch, the next range starts just
above the fork point; and a filter range never ends above the highest stored filter header.
These need that no stored record hashes to zero (which would read as "start from genesis") and
that heights are 32-bit numbers.
-/

namespace BitcoinLight

/-! ## Ancestors in the store -/

/-- `a` is `c` or an ancestor of `c` through stored parents. -/
inductive Store.IsAncestor (s : Store) : BlockRecord → BlockRecord → Prop
  | refl {r : BlockRecord} : r ∈ s.headers → s.IsAncestor r r
  | parent {a p c : BlockRecord} : s.IsAncestor a p → Follows p c → c ∈ s.headers →
      s.IsAncestor a c

def Store.CommonAncestorAt (s : Store) (a b : BlockRecord) (j : Nat) : Prop :=
  (∃ m, m.height = j ∧ s.IsAncestor m a ∧ s.IsAncestor m b) ∧
    ∀ m, s.IsAncestor m a → s.IsAncestor m b → m.height ≤ j

namespace Store.IsAncestor

variable {p : Params} {s : Store} {a b c : BlockRecord}

theorem mem_left (h : s.IsAncestor a c) : a ∈ s.headers := by
  induction h with
  | refl hr => exact hr
  | parent _ _ _ ih => exact ih

theorem mem_right (h : s.IsAncestor a c) : c ∈ s.headers := by
  cases h with
  | refl hr => exact hr
  | parent _ _ hc => exact hc

theorem height_le (h : s.IsAncestor a c) : a.height ≤ c.height := by
  induction h with
  | refl => exact le_rfl
  | parent _ hf _ ih =>
    rw [hf.1]
    omega

theorem eq_of_height_eq (h : s.IsAncestor a c) (hh : a.height = c.height) : a = c := by
  cases h with
  | refl => rfl
  | parent hap hf _ =>
    have := hap.height_le
    rw [hf.1] at hh
    omega

theorem trans (hab : s.IsAncestor a b) (hbc : s.IsAncestor b c) : s.IsAncestor a c := by
  induction hbc with
  | refl => exact hab
  | parent _ hf hc ih => exact .parent ih hf hc

theorem of_follows (hf : Follows a c) (ha : a ∈ s.headers) (hc : c ∈ s.headers) :
    s.IsAncestor a c :=
  .parent (.refl ha) hf hc

theorem to_parent (hs : HeaderStore p s) (h : s.IsAncestor a c) (hne : a ≠ c) {q : BlockRecord}
    (hq : q ∈ s.headers) (hf : Follows q c) : s.IsAncestor a q := by
  cases h with
  | refl => exact absurd rfl hne
  | parent hap hf' _ =>
    -- both parents are stored under the hash the block names
    rwa [hs.eq_of_hash_eq hap.mem_right hq (hf'.2.symm.trans hf.2)] at hap

theorem unique (hs : HeaderStore p s) {a' : BlockRecord} (ha : s.IsAncestor a c)
    (ha' : s.IsAncestor a' c) (hh : a.height = a'.height) : a = a' := by
  induction ha generalizing a' with
  | refl => exact (ha'.eq_of_height_eq hh.symm).symm
  | @parent q t hap hf _ ih =>
    -- `a'` is lower than the block, so it is an ancestor of the block's parent
    have hlt : a'.height < t.height := by
      have := hap.height_le
      rw [hf.1]
      omega
    have hne : a' ≠ t := by
      rintro rfl
      exact Nat.lt_irrefl _ hlt
    exact ih (ha'.to_parent hs hne hap.mem_right hf) hh

theorem exists_at_height (hs : HeaderStore p s) (hc : c ∈ s.headers) {k : Nat}
    (hk : k ≤ c.height) : ∃ m, m.height = k ∧ s.IsAncestor m c := by
  induction hd : c.height - k generalizing c with
  | zero => exact ⟨c, by omega, .refl hc⟩
  | succ d ih =>
    obtain ⟨q, hq, hacc⟩ := hs.parent c hc (by omega)
    have hqh := hacc.height_eq
    obtain ⟨m, hm, hmq⟩ := ih hq (by omega) (by omega)
    exact ⟨m, hm, .parent hmq hacc.follows hc⟩

theorem of_le (hs : HeaderStore p s) (ha : s.IsAncestor a c) (hb : s.IsAncestor b c)
    (hle : a.height ≤ b.height) : s.IsAncestor a b := by
  obtain ⟨m, hm, hmb⟩ := exists_at_height hs hb.mem_left hle
  rwa [unique hs ha (hmb.trans hb) hm.symm]

end Store.IsAncestor

namespace Store.IsAncestor

variable {p : Params} {s : Store} {a b c : BlockRecord}

theorem of_linked : ∀ {rs : List BlockRecord} {a c : BlockRecord}, Linked rs →
    (∀ r ∈ rs, r ∈ s.headers) → rs.head? = some a → rs.getLast? = some c → s.IsAncestor a c
  | [], _, _, _, _, ha, _ => by simp at ha
  | [x], _, _, _, hst, ha, hc => by
    simp only [List.head?_cons, Option.some.injEq, List.getLast?_singleton] at ha hc
    subst ha hc
    exact .refl (hst _ List.mem_cons_self)
  | x :: y :: rest, _, c, hl, hst, ha, hc => by
    simp only [List.head?_cons, Option.some.injEq] at ha
    subst ha
    have hyc : s.IsAncestor y c :=
      of_linked hl.2 (fun r hr => hst r (List.mem_cons_of_mem _ hr)) rfl
        (by rwa [List.getLast?_cons_cons] at hc)
    exact (of_follows hl.1 (hst _ List.mem_cons_self) hyc.mem_left).trans hyc

end Store.IsAncestor

theorem HeaderStore.height_lt_headerCount {p : Params} {s : Store} (hs : HeaderStore p s)
    {c : BlockRecord} (hc : c ∈ s.headers) : c.height < s.headerCount := by
  have hsub : List.range (c.height + 1) ⊆ s.headers.map (·.height) := by
    intro k hk
    obtain ⟨m, hm, hmc⟩ :=
      Store.IsAncestor.exists_at_height hs hc (Nat.lt_succ_iff.mp (List.mem_range.mp hk))
    exact List.mem_map.mpr ⟨m, hmc.mem_left, hm⟩
  have hlen := (List.nodup_range.subperm hsub).length_le
  simp only [List.length_range, List.length_map] at hlen
  exact hlen

namespace Store.CommonAncestorAt

variable {p : Params} {s : Store} {a b l r : BlockRecord} {j : Nat}

theorem of_isAncestor (h : s.IsAncestor a b) : s.CommonAncestorAt a b a.height :=
  ⟨⟨a, rfl, .refl h.mem_left, h⟩, fun _ hm _ => hm.height_le⟩

theorem height_eq {j' : Nat} (h : s.CommonAncestorAt a b j) (h' : s.CommonAncestorAt a b j') :
    j = j' := by
  obtain ⟨m, hm, hma, hmb⟩ := h.1
  obtain ⟨m', hm', hma', hmb'⟩ := h'.1
  have := h'.2 m hma hmb
  have := h.2 m' hma' hmb'
  omega

theorem of_parents (hs : HeaderStore p s) (hne : l ≠ r) (hh : l.height = r.height)
    {pl pr : BlockRecord} (hpl : pl ∈ s.headers) (hpr : pr ∈ s.headers) (hfl : Follows pl l)
    (hfr : Follows pr r) (hl : l ∈ s.headers) (hr : r ∈ s.headers)
    (h : s.CommonAncestorAt pl pr j) : s.CommonAncestorAt l r j := by
  obtain ⟨m, hm, hml, hmr⟩ := h.1
  refine ⟨⟨m, hm, .parent hml hfl hl, .parent hmr hfr hr⟩, fun m' hm'l hm'r => ?_⟩
  -- a common ancestor at their own height would be both blocks at once
  have hml' : m' ≠ l := by
    rintro rfl
    exact hne (hm'r.eq_of_height_eq hh)
  have hmr' : m' ≠ r := by
    rintro rfl
    exact hne (hm'l.eq_of_height_eq hh.symm).symm
  exact h.2 m' (hm'l.to_parent hs hml' hpl hfl) (hm'r.to_parent hs hmr' hpr hfr)

theorem of_ancestors (hs : HeaderStore p s) (hla : s.IsAncestor l a) (hrb : s.IsAncestor r b)
    (hlh : l.height = min a.height b.height) (hrh : r.height = min a.height b.height)
    (h : s.CommonAncestorAt l r j) : s.CommonAncestorAt a b j := by
  obtain ⟨m, hm, hml, hmr⟩ := h.1
  refine ⟨⟨m, hm, hml.trans hla, hmr.trans hrb⟩, fun m' hma hmb => ?_⟩
  have hle : m'.height ≤ min a.height b.height := le_min hma.height_le hmb.height_le
  exact h.2 m' (hma.of_le hs hla (by omega)) (hmb.of_le hs hrb (by omega))

end Store.CommonAncestorAt

/-! ## Ancestors as the queries find them -/

namespace View

variable {p : Params} {s : Store} {v : View}

theorem header?_eq_findByHash (hcs : ∀ c ∈ v.chains, s.HoldsChain c)
    (hnd : (s.headers.map (·.hash)).Nodup) (h : Hash256) : v.header? s h = s.findByHash h := by
  unfold header?
  split
  · rename_i r hr
    obtain ⟨c, hc, hcf⟩ := List.exists_of_findSome?_eq_some hr
    obtain ⟨hm, hh⟩ := Chain.find?_spec hcf
    rw [← hh, Store.findByHash_of_mem hnd ((hcs c hc).2 r hm)]
  · rfl

theorem ancestorAt_eq_some_iff (hs : HeaderStore p s) (hcov : s.IndexCovers)
    (hcs : ∀ c ∈ v.chains, s.HoldsChain c) {tip : BlockRecord} (htip : tip ∈ s.headers)
    (h32 : tip.height < 2 ^ 32) {hgt : Nat} {r : BlockRecord} :
    v.ancestorAt s tip hgt = some r ↔ r.height = hgt ∧ s.IsAncestor r tip := by
  -- the walk from `hgt` up to the block is a linked run of stored records
  have hwalk : ∀ {r' : BlockRecord}, (s.chainTo tip (tip.height - hgt + 1)).first? = some r' →
      s.IsAncestor r' tip := fun hf =>
    Store.IsAncestor.of_linked (Store.holdsChain_chainTo htip _).1
      (Store.holdsChain_chainTo htip _).2 hf (Store.tip?_chainTo s tip _)
  constructor
  · intro h
    have hle : hgt ≤ tip.height := by
      by_contra hlt
      rw [ancestorAt, if_pos (by omega)] at h
      cases h
    obtain ⟨r', hr', hf, hh⟩ :=
      ancestorAt_eq_first? hcs hs.nodup hcov hs.hasParents htip h32 hle
    rw [h, Option.some.injEq] at hr'
    subst hr'
    exact ⟨hh, hwalk hf⟩
  · rintro ⟨rfl, hr⟩
    obtain ⟨r', hr', hf, hh⟩ :=
      ancestorAt_eq_first? (v := v) hcs hs.nodup hcov hs.hasParents htip h32 hr.height_le
    rw [hr', (hwalk hf).unique hs hr hh]

theorem meetFrom_step (hs : HeaderStore p s) (hcs : ∀ c ∈ v.chains, s.HoldsChain c)
    {l r : BlockRecord} (hl : l ∈ s.headers) (hr : r ∈ s.headers) (hh : l.height = r.height)
    (heq : l.hash ≠ r.hash) (fuel : Nat) :
    ∃ pl pr, pl ∈ s.headers ∧ pr ∈ s.headers ∧ Accepted p pl l ∧ Accepted p pr r ∧
      View.meetFrom s v (fuel + 1) (some l) (some r) =
        View.meetFrom s v fuel (some pl) (some pr) := by
  have h0 : l.height ≠ 0 := fun h0 => ne_of_apply_ne BlockRecord.hash heq
    ((hs.eq_genesis l hl h0).trans (hs.eq_genesis r hr (hh ▸ h0)).symm)
  obtain ⟨pl, hpl, hal⟩ := hs.parent l hl (Nat.pos_of_ne_zero h0)
  obtain ⟨pr, hpr, har⟩ := hs.parent r hr (by omega)
  refine ⟨pl, pr, hpl, hpr, hal, har, ?_⟩
  rw [meetFrom, if_neg heq, if_neg h0, header?_eq_findByHash hcs hs.nodup,
    header?_eq_findByHash hcs hs.nodup, hal.prev_eq, har.prev_eq,
    Store.findByHash_of_mem hs.nodup hpl, Store.findByHash_of_mem hs.nodup hpr]

theorem meetFrom_spec (hs : HeaderStore p s) (hcs : ∀ c ∈ v.chains, s.HoldsChain c) :
    ∀ (fuel : Nat) (l r : BlockRecord), l ∈ s.headers → r ∈ s.headers → l.height = r.height →
      l.height < fuel → ∃ j, View.meetFrom s v fuel (some l) (some r) = some j ∧
        s.CommonAncestorAt l r j
  | 0, _, _, _, _, _, hf => absurd hf (Nat.not_lt_zero _)
  | fuel + 1, l, r, hl, hr, hh, hf => by
    by_cases heq : l.hash = r.hash
    · -- the walks meet
      obtain rfl := hs.eq_of_hash_eq hl hr heq
      exact ⟨l.height, by rw [meetFrom, if_pos heq],
        Store.CommonAncestorAt.of_isAncestor (.refl hl)⟩
    obtain ⟨pl, pr, hpl, hpr, hal, har, hstep⟩ := meetFrom_step hs hcs hl hr hh heq fuel
    have hlh := hal.height_eq
    have hrh := har.height_eq
    obtain ⟨j, hj, hspec⟩ := meetFrom_spec hs hcs fuel pl pr hpl hpr (by omega) (by omega)
    exact ⟨j, hstep.trans hj, hspec.of_parents hs (ne_of_apply_ne BlockRecord.hash heq) hh hpl hpr
      hal.follows har.follows hl hr⟩

theorem commonAncestorHeight_spec (hs : HeaderStore p s) (hcov : s.IndexCovers)
    (hcs : ∀ c ∈ v.chains, s.HoldsChain c) {a b : BlockRecord} (ha : a ∈ s.headers)
    (hb : b ∈ s.headers) (ha32 : a.height < 2 ^ 32) (hb32 : b.height < 2 ^ 32) :
    ∃ j, v.commonAncestorHeight s a b = .ok j ∧ s.CommonAncestorAt a b j := by
  obtain ⟨la, hla, hlaa⟩ := Store.IsAncestor.exists_at_height hs ha (min_le_left a.height b.height)
  obtain ⟨lb, hlb, hlbb⟩ := Store.IsAncestor.exists_at_height hs hb (min_le_right a.height b.height)
  have hal := (ancestorAt_eq_some_iff (v := v) hs hcov hcs ha ha32).mpr ⟨hla, hlaa⟩
  have hbl := (ancestorAt_eq_some_iff (v := v) hs hcov hcs hb hb32).mpr ⟨hlb, hlbb⟩
  -- the walk takes at most one step per height, and the store holds more records than that
  have hfuel : la.height < s.headerCount + (v.chains.map (·.length)).sum + 1 := by
    have := hs.height_lt_headerCount hlaa.mem_left
    omega
  obtain ⟨j, hj, hspec⟩ :=
    meetFrom_spec hs hcs _ la lb hlaa.mem_left hlbb.mem_left (by omega) hfuel
  refine ⟨j, ?_, hspec.of_ancestors hs hlaa hlbb hla hlb⟩
  simp only [commonAncestorHeight, hal, hbl, hj]

end View

/-! ## Ranges -/

theorem lt_ceilDiv_iff {b H k : Nat} (hb : 0 < b) : k < (H + 1) ⌈/⌉ b ↔ k * b ≤ H := by
  rw [← not_le, ceilDiv_le_iff_le_mul hb, Nat.mul_comm b k]
  omega

namespace View

variable {p : Params} {s : Store} {v : View}

theorem batchMarker_of_lt {stop : BlockRecord} {start size : Nat} (hsize : 0 < size)
    (h : stop.height < start) : v.batchMarker s stop start size = .ok none := by
  simp [batchMarker, Nat.pos_iff_ne_zero.mp hsize, h]

theorem batchMarker_of_le (hs : HeaderStore p s) (hcov : s.IndexCovers)
    (hcs : ∀ c ∈ v.chains, s.HoldsChain c) {stop : BlockRecord} (hstop : stop ∈ s.headers)
    (h32 : stop.height < 2 ^ 32) {start size : Nat} (hsize : 0 < size) (h : start ≤ stop.height) :
    ∃ q, q.height = min (start + size - 1) stop.height ∧ s.IsAncestor q stop ∧
      v.batchMarker s stop start size = .ok (some ⟨start, q.hash⟩) := by
  obtain ⟨q, hq, hqa⟩ := Store.IsAncestor.exists_at_height hs hstop
    (min_le_right (start + size - 1) stop.height)
  -- the last height is capped by the 32-bit range too, which the stop block's height is in
  have hcap : min (min (start + (size - 1)) (2 ^ 32 - 1)) stop.height =
      min (start + size - 1) stop.height := by omega
  have hanc := (ancestorAt_eq_some_iff (v := v) hs hcov hcs hstop h32).mpr ⟨hq, hqa⟩
  refine ⟨q, hq, hqa, ?_⟩
  simp only [batchMarker, Nat.pos_iff_ne_zero.mp hsize, if_false, gt_iff_lt,
    if_neg (Nat.not_lt.mpr h), hcap, hanc]

theorem nextHeaderBatch_self (h : Hash256) (size : Nat) :
    v.nextHeaderBatch s h h size = .ok none := by
  simp [nextHeaderBatch]

theorem nextHeaderBatch_from_zero (hcs : ∀ c ∈ v.chains, s.HoldsChain c)
    (hnd : (s.headers.map (·.hash)).Nodup) {stop : BlockRecord} (hstop : stop ∈ s.headers)
    (hz : stop.hash ≠ Hash256.zero) (size : Nat) :
    v.nextHeaderBatch s Hash256.zero stop.hash size = v.batchMarker s stop 0 size := by
  simp [nextHeaderBatch, Ne.symm hz, requireHeader_eq hcs hnd hstop, bind, Except.bind, pure,
    Except.pure]

theorem nextHeaderBatch_after (hs : HeaderStore p s) (hcov : s.IndexCovers)
    (hcs : ∀ c ∈ v.chains, s.HoldsChain c) {prev stop : BlockRecord} (hprev : prev ∈ s.headers)
    (hstop : stop ∈ s.headers) (hprev32 : prev.height < 2 ^ 32) (hstop32 : stop.height < 2 ^ 32)
    (hne : prev.hash ≠ stop.hash) (hz : prev.hash ≠ Hash256.zero) (size : Nat) :
    ∃ j, s.CommonAncestorAt prev stop j ∧
      v.nextHeaderBatch s prev.hash stop.hash size = v.batchMarker s stop (j + 1) size := by
  obtain ⟨j, hj, hspec⟩ := commonAncestorHeight_spec (v := v) hs hcov hcs hprev hstop hprev32 hstop32
  refine ⟨j, hspec, ?_⟩
  simp [nextHeaderBatch, hne, hz, requireHeader_eq hcs hs.nodup hstop,
    requireHeader_eq hcs hs.nodup hprev, hj, bind, Except.bind, pure, Except.pure]

end View

/-- The header ranges a sync asks for toward `stopHash`, one call after another: the first from
the zero hash, each next one from the stop block of the one before. A call that gives no range,
or fails, ends the run with its answer. -/
def View.headerBatchRun (s : Store) (v : View) (stopHash : Hash256) (size : Nat) :
    Nat → Except Error (Option SyncMarker)
  | 0 => v.nextHeaderBatch s Hash256.zero stopHash size
  | k + 1 =>
    match View.headerBatchRun s v stopHash size k with
    | .ok (some m) => v.nextHeaderBatch s m.stopHash stopHash size
    | r => r

namespace View

variable {p : Params} {s : Store} {v : View}

section Run

variable (hs : HeaderStore p s) (hcov : s.IndexCovers) (hcs : ∀ c ∈ v.chains, s.HoldsChain c)
  (hz : ¬s.StoresZeroHash) (h32 : ∀ r ∈ s.headers, r.height < 2 ^ 32)
  {stop : BlockRecord} (hstop : stop ∈ s.headers) {b : Nat} (hb : 0 < b)

include hs hcov hcs hz h32 hstop hb in
theorem headerBatchRun_of_le :
    ∀ k, k * b ≤ stop.height → ∃ q, q.height = min ((k + 1) * b - 1) stop.height ∧
      s.IsAncestor q stop ∧ v.headerBatchRun s stop.hash b k = .ok (some ⟨k * b, q.hash⟩)
  | 0, _ => by
    obtain ⟨q, hq, hqa, hm⟩ := batchMarker_of_le (v := v) hs hcov hcs hstop (h32 stop hstop) hb
      (Nat.zero_le stop.height)
    refine ⟨q, by rw [hq]; simp, hqa, ?_⟩
    rw [headerBatchRun, nextHeaderBatch_from_zero hcs hs.nodup hstop
      (fun h0 => hz ⟨stop, hstop, h0⟩), hm, Nat.zero_mul]
  | k + 1, hk => by
    obtain ⟨q, hq, hqa, hrun⟩ :=
      headerBatchRun_of_le k (le_trans (Nat.mul_le_mul_right b (Nat.le_succ k)) hk)
    have hpos : 0 < (k + 1) * b := Nat.mul_pos (Nat.succ_pos k) hb
    -- the previous range ended below the stop block, at its ancestor
    have hqh : q.height = (k + 1) * b - 1 := by
      rw [hq]
      exact min_eq_left (by omega)
    have hne : q.hash ≠ stop.hash := fun he => by
      have := hs.eq_of_hash_eq hqa.mem_left hstop he
      subst this
      omega
    obtain ⟨j, hj, hnext⟩ := nextHeaderBatch_after (v := v) hs hcov hcs hqa.mem_left hstop
      (h32 q hqa.mem_left) (h32 stop hstop) hne (fun h0 => hz ⟨q, hqa.mem_left, h0⟩) b
    -- an ancestor of the stop block is the highest block the two have in common
    have hjq : j = q.height := hj.height_eq (Store.CommonAncestorAt.of_isAncestor hqa)
    have hstart : j + 1 = (k + 1) * b := by
      rw [hjq, hqh]
      omega
    obtain ⟨q', hq', hq'a, hm⟩ := batchMarker_of_le (v := v) hs hcov hcs hstop (h32 stop hstop)
      hb hk
    refine ⟨q', by rw [hq']; congr 1; rw [Nat.add_mul (k + 1) 1 b]; omega, hq'a, ?_⟩
    rw [headerBatchRun, hrun]
    dsimp only
    rw [hnext, hstart, hm]

include hs hcov hcs hz h32 hstop hb in
theorem headerBatchRun_end :
    v.headerBatchRun s stop.hash b ((stop.height + 1) ⌈/⌉ b) = .ok none := by
  obtain ⟨k, hk⟩ : ∃ k, (stop.height + 1) ⌈/⌉ b = k + 1 := by
    refine Nat.exists_eq_add_one.mpr ((lt_ceilDiv_iff hb).mpr ?_)
    simp
  have hkb : k * b ≤ stop.height := (lt_ceilDiv_iff hb).mp (by omega)
  have hkb' : stop.height < (k + 1) * b := by
    have := (lt_ceilDiv_iff (k := k + 1) (H := stop.height) hb).not.mp (by omega)
    omega
  obtain ⟨q, hq, hqa, hrun⟩ := headerBatchRun_of_le hs hcov hcs hz h32 hstop hb k hkb
  -- the last range reaches the stop block's own height, where its ancestor is itself
  have hqs : q = stop := hqa.eq_of_height_eq (by rw [hq]; omega)
  subst hqs
  rw [hk, headerBatchRun, hrun]
  exact nextHeaderBatch_self _ _

end Run

end View

/-! ## Filter ranges stay below the filter headers -/

namespace View

variable {s : Store} {v : View}

theorem ancestorAt_height {tip q : BlockRecord} {hgt : Nat} (h : v.ancestorAt s tip hgt = some q) :
    q.height = hgt ∧ hgt ≤ tip.height := by
  unfold ancestorAt at h
  split at h
  · cases h
  · obtain ⟨-, hq⟩ := Option.filter_eq_some_iff.mp h
    exact ⟨by simpa using hq, by omega⟩

theorem ancestorAt_mem (hcs : ∀ c ∈ v.chains, s.HoldsChain c) {tip q : BlockRecord}
    (htip : tip ∈ s.headers) {hgt : Nat} (h : v.ancestorAt s tip hgt = some q) :
    q ∈ s.headers := by
  unfold ancestorAt at h
  split at h
  · cases h
  · obtain ⟨hf, -⟩ := Option.filter_eq_some_iff.mp h
    exact (holdsChain_chainEndingAt hcs htip _).2 q (List.mem_of_mem_head? hf)

theorem batchMarker_stop (hcs : ∀ c ∈ v.chains, s.HoldsChain c) {stop : BlockRecord}
    (hstop : stop ∈ s.headers) {start size : Nat} {m : SyncMarker}
    (h : v.batchMarker s stop start size = .ok (some m)) :
    ∃ q ∈ s.headers, q.hash = m.stopHash ∧ q.height ≤ stop.height := by
  unfold batchMarker at h
  split at h
  · cases h
  split at h
  · cases h
  dsimp only at h
  split at h
  · rename_i q hq
    cases h
    obtain ⟨hqh, hle⟩ := ancestorAt_height hq
    exact ⟨q, ancestorAt_mem hcs hstop hq, rfl, hqh ▸ hle⟩
  · cases h

theorem nextFilterBatch_stop (hcs : ∀ c ∈ v.chains, s.HoldsChain c)
    (hnd : (s.headers.map (·.hash)).Nodup) {stopHash : Hash256} {size : Nat}
    {start : Option Nat} {m : SyncMarker} (h : v.nextFilterBatch s stopHash size start = .ok (some m)) :
    ∃ top, s.maxFilterHeaderHeight = some top ∧
      ∀ q ∈ s.headers, q.hash = m.stopHash → q.height ≤ top := by
  unfold nextFilterBatch at h
  split at h
  · cases h
  rename_i top htop
  refine ⟨top, htop, ?_⟩
  -- the block the range is asked toward, lowered to the top filter header's height
  obtain ⟨stop, hreq, hstop⟩ : ∃ stop, v.requireHeader s stopHash = .ok stop ∧ stop ∈ s.headers := by
    cases hreq : v.requireHeader s stopHash with
    | error e => simp [hreq, bind, Except.bind] at h
    | ok stop =>
      obtain ⟨-, hmem⟩ := requireHeader_ok hreq
      refine ⟨stop, rfl, ?_⟩
      rcases hmem with ⟨c, hc, hrc⟩ | hrs
      · exact (hcs c hc).2 stop hrc
      · exact hrs
  simp only [hreq, bind, Except.bind] at h
  obtain ⟨low, hlow, hlowt, hb⟩ : ∃ low ∈ s.headers, low.height ≤ top ∧
      ∃ st, v.batchMarker s low st size = .ok (some m) := by
    by_cases hgt : stop.height > top
    · rw [if_pos hgt] at h
      cases ha : v.ancestorAt s stop top with
      | none => simp [ha, pure, Except.pure] at h
      | some low =>
        rw [ha] at h
        exact ⟨low, ancestorAt_mem hcs hstop ha, (ancestorAt_height ha).1.le, _, h⟩
    · rw [if_neg hgt] at h
      exact ⟨stop, hstop, by omega, _, h⟩
  obtain ⟨st, hb⟩ := hb
  obtain ⟨q, hq, hqh, hqle⟩ := batchMarker_stop hcs hlow hb
  intro q' hq' hq'h
  rw [List.inj_on_of_nodup_map hnd hq' hq (hq'h.trans hqh.symm)]
  omega

end View

/-- Sync ranges partition the chain. In a store with the header-store invariant whose height index
names every record, seen through a view whose candidates are stored chains, where no record hashes
to zero and heights are 32-bit numbers: for every stored stop block at height `H` and batch size
`b ≥ 1`, the run of header ranges from the zero hash gives ⌈(H+1)/b⌉ ranges and then none, the
`k`-th covering heights `k b` to `min ((k+1) b - 1) H` and ending at the stop block's ancestor
there; after a previous stop on another branch, the next range starts just above the highest
block the two have in common (none when that is the stop block itself); and a filter range never
ends at a block above the highest stored filter header. -/
theorem sync_ranges_partition_chain {p : Params} {s : Store} {v : View} (hs : HeaderStore p s)
    (hcov : s.IndexCovers) (hcs : ∀ c ∈ v.chains, s.HoldsChain c) (hz : ¬s.StoresZeroHash)
    (h32 : ∀ r ∈ s.headers, r.height < 2 ^ 32) :
    (∀ stop ∈ s.headers, ∀ b, 0 < b →
      (∀ k < (stop.height + 1) ⌈/⌉ b, ∃ q, q.height = min ((k + 1) * b - 1) stop.height ∧
        s.IsAncestor q stop ∧ v.headerBatchRun s stop.hash b k = .ok (some ⟨k * b, q.hash⟩)) ∧
      v.headerBatchRun s stop.hash b ((stop.height + 1) ⌈/⌉ b) = .ok none ∧
      ∀ prev ∈ s.headers, prev.hash ≠ stop.hash → ∃ j, s.CommonAncestorAt prev stop j ∧
        (stop.height < j + 1 → v.nextHeaderBatch s prev.hash stop.hash b = .ok none) ∧
        (j + 1 ≤ stop.height → ∃ q, q.height = min (j + b) stop.height ∧ s.IsAncestor q stop ∧
          v.nextHeaderBatch s prev.hash stop.hash b = .ok (some ⟨j + 1, q.hash⟩))) ∧
    ∀ stopHash size start m, v.nextFilterBatch s stopHash size start = .ok (some m) →
      ∃ top, s.maxFilterHeaderHeight = some top ∧
        ∀ q ∈ s.headers, q.hash = m.stopHash → q.height ≤ top := by
  refine ⟨fun stop hstop b hb => ⟨fun k hk => ?_, ?_, fun prev hprev hne => ?_⟩,
    fun _ _ _ _ h => View.nextFilterBatch_stop hcs hs.nodup h⟩
  · exact View.headerBatchRun_of_le hs hcov hcs hz h32 hstop hb k ((lt_ceilDiv_iff hb).mp hk)
  · exact View.headerBatchRun_end hs hcov hcs hz h32 hstop hb
  · obtain ⟨j, hj, hnext⟩ := View.nextHeaderBatch_after (v := v) hs hcov hcs hprev hstop
      (h32 prev hprev) (h32 stop hstop) hne (fun h0 => hz ⟨prev, hprev, h0⟩) b
    refine ⟨j, hj, fun hlt => ?_, fun hle => ?_⟩
    · rw [hnext, View.batchMarker_of_lt hb hlt]
    · obtain ⟨q, hq, hqa, hm⟩ :=
        View.batchMarker_of_le (v := v) hs hcov hcs hstop (h32 stop hstop) hb hle
      exact ⟨q, by rw [hq]; congr 1; omega, hqa, hnext.trans hm⟩

theorem regtestGenesis_hash_ne_zero :
    (BlockRecord.genesis Config.forTesting.params).hash ≠ Hash256.zero := by
  rw [forTesting_genesis_hash]
  decide

end BitcoinLight
