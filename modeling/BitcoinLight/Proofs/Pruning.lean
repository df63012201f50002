import BitcoinLight.Proofs.HeaderBatch
import BitcoinLight.Proofs.ChainWork

set_option autoImplicit false

/-!
# Pruning keeps the candidates no other candidate runs past

`pruneChains` takes the candidates in turn and keeps one, cut to the depth, when no candidate
with another tip holds its tip's hash and no chain kept so far ends at that hash. So the kept
tips are distinct, no kept tip lies inside a candidate with another tip, and each kept chain is
a suffix of a candidate no longer than the depth.

The most work among the tips survives when a hash names one record across the candidates: a
dropped tip lies inside a candidate whose tip is higher and, along a chain whose work never
falls, has at least its work; following such tips upward ends at a kept one. Without that, a
candidate may hold a block with less work than the tip of another candidate ending at the same
block, and pruning drops the tip with the most work (`pruned_tip_loses_most_work`).
-/

namespace BitcoinLight

theorem max?_eq_of_dominate {xs ys : List Nat} (hxy : ∀ x ∈ xs, ∃ y ∈ ys, x ≤ y)
    (hyx : ∀ y ∈ ys, ∃ x ∈ xs, y ≤ x) : xs.max? = ys.max? := by
  rcases hx : xs.max? with _ | m
  · rw [List.max?_eq_none_iff] at hx
    subst hx
    symm
    rw [List.max?_eq_none_iff, List.eq_nil_iff_forall_not_mem]
    intro y hy
    obtain ⟨x, hx, -⟩ := hyx y hy
    simp at hx
  · obtain ⟨hm, hmax⟩ := List.max?_eq_some_iff.mp hx
    obtain ⟨y, hy, hmy⟩ := hxy m hm
    symm
    refine List.max?_eq_some_iff.mpr ⟨?_, fun y' hy' => ?_⟩
    · -- the greatest of `ys` is reached from `m`, and reaches no further than `m`
      obtain ⟨x, hx', hyx'⟩ := hyx y hy
      have : y = m := le_antisymm (hyx'.trans (hmax x hx')) hmy
      exact this ▸ hy
    · obtain ⟨x, hx', hyx'⟩ := hyx y' hy'
      exact hyx'.trans (hmax x hx')

theorem Linked.lt_last {rs : List BlockRecord} (hl : Linked rs)
    (hw : (rs.map (·.work)).IsChain (· ≤ ·)) {x u : BlockRecord} (hx : x ∈ rs)
    (hu : rs.getLast? = some u) (hne : x.hash ≠ u.hash) :
    x.height < u.height ∧ x.work ≤ u.work := by
  obtain ⟨init, rfl⟩ := List.getLast?_eq_some_iff.mp hu
  have hxi : x ∈ init := by
    rcases List.mem_append.mp hx with hx | hx
    · exact hx
    · rw [List.mem_singleton.mp hx] at hne
      exact absurd rfl hne
  have hh := List.pairwise_append.mp hl.pairwise_height
  have hpw : (init ++ [u]).Pairwise fun a b => a.work ≤ b.work :=
    List.pairwise_map.mp (List.isChain_iff_pairwise.mp hw)
  exact ⟨hh.2.2 x hxi u List.mem_cons_self,
    (List.pairwise_append.mp hpw).2.2 x hxi u List.mem_cons_self⟩

namespace View

section Prune

variable {d : Nat} {cs : List Chain}

theorem pruneChains_inv (P : List Hash256 × List Chain → Prop) (h0 : P ([], []))
    (step : ∀ acc, ∀ e ∈ cs.zipIdx, P acc → P (keepChain d cs acc e)) :
    ∃ acc, P acc ∧ pruneChains d cs = acc.2 :=
  ⟨_, foldl_keepChain_inv P (Q := (· ∈ cs.zipIdx)) step cs.zipIdx (fun _ he => he) _ h0, rfl⟩

def KeptInOrder (acc : List Hash256 × List Chain) : Prop :=
  acc.2.map (·.tip?.map (·.hash)) = acc.1.map some ∧ acc.1.Nodup

def KeptUnextended (cs : List Chain) (acc : List Hash256 × List Chain) : Prop :=
  ∀ c ∈ acc.2, ∀ t, c.tip? = some t →
    ∀ o ∈ cs, o.tip?.map (·.hash) ≠ some t.hash → o.contains t.hash = false

theorem keepChain_cases (acc : List Hash256 × List Chain) (e : Chain × Nat) :
    keepChain d cs acc e = acc ∨
      ∃ t, e.1.tip? = some t ∧ t.hash ∉ acc.1 ∧
        (∀ o j, (o, j) ∈ cs.zipIdx → j ≠ e.2 →
          cs[j]?.map (·.tip?.map (·.hash)) ≠ some (some t.hash) → o.contains t.hash = false) ∧
        keepChain d cs acc e = (acc.1 ++ [t.hash], acc.2 ++ [e.1.trim d]) := by
  unfold keepChain
  dsimp only
  split
  · exact .inl rfl
  · rename_i t ht
    split
    · exact .inl rfl
    · rename_i hcond
      simp only [Bool.or_eq_true, not_or, List.contains_iff_mem, Bool.not_eq_true] at hcond
      obtain ⟨hext, hin⟩ := hcond
      refine .inr ⟨t, ht, by simpa using hin, fun o j hoj hj htip => ?_, rfl⟩
      -- a candidate with another tip holding the hash would have made the turn drop it
      have hno := List.any_eq_false.mp hext (o, j) hoj
      simp only [Bool.and_eq_true, bne_iff_ne, ne_eq, List.getElem?_map, not_and,
        Bool.not_eq_true] at hno
      exact hno ⟨hj, htip⟩

theorem keepChain_keptInOrder (hd : 0 < d) {acc : List Hash256 × List Chain}
    (h : KeptInOrder acc) (e : Chain × Nat) : KeptInOrder (keepChain d cs acc e) := by
  rcases @keepChain_cases d cs acc e with heq | ⟨t, ht, hnew, -, heq⟩
  · rwa [heq]
  · rw [heq]
    refine ⟨?_, List.nodup_append.mpr ⟨h.2, List.nodup_singleton _, ?_⟩⟩
    · simp only [List.map_append, h.1, List.map_singleton, Chain.tip?_trim _ hd, ht,
        Option.map_some]
    · intro a ha b hb
      rw [List.mem_singleton.mp hb]
      exact fun hab => hnew (hab ▸ ha)

theorem keepChain_keptUnextended (hd : 0 < d) {acc : List Hash256 × List Chain}
    (h : KeptUnextended cs acc) {e : Chain × Nat} (he : e ∈ cs.zipIdx) :
    KeptUnextended cs (keepChain d cs acc e) := by
  rcases @keepChain_cases d cs acc e with heq | ⟨t, ht, -, hext, heq⟩
  · rwa [heq]
  rw [heq]
  intro c hc t' ht' o ho hot
  rcases List.mem_append.mp hc with hc | hc
  · exact h c hc t' ht' o ho hot
  rw [List.mem_singleton.mp hc, Chain.tip?_trim _ hd, ht, Option.some.injEq] at ht'
  subst ht'
  obtain ⟨j, hj⟩ := List.mem_iff_getElem?.mp ho
  have hei : cs[e.2]? = some e.1 := List.mem_zipIdx_iff_getElem?.mp he
  refine hext o j (List.mem_zipIdx_iff_getElem?.mpr hj) (fun hje => ?_) (by simpa [hj] using hot)
  -- the candidate at the turn's own index ends at the tip
  rw [hje, hei, Option.some.injEq] at hj
  subst hj
  exact hot (by rw [ht]; rfl)

theorem pruneChains_tips_nodup (hd : 0 < d) :
    ((pruneChains d cs).map (·.tip?.map (·.hash))).Nodup := by
  obtain ⟨acc, hacc, heq⟩ := @pruneChains_inv d cs KeptInOrder
    ⟨rfl, List.nodup_nil⟩ fun acc _ _ h => keepChain_keptInOrder hd h _
  rw [heq, hacc.1]
  exact hacc.2.map (fun _ _ h => Option.some.inj h)

theorem pruneChains_unextended (hd : 0 < d) {c : Chain} (hc : c ∈ pruneChains d cs)
    {t : BlockRecord} (ht : c.tip? = some t) {o : Chain} (ho : o ∈ cs)
    (hot : o.tip?.map (·.hash) ≠ some t.hash) : o.contains t.hash = false := by
  obtain ⟨acc, hacc, heq⟩ := @pruneChains_inv d cs (KeptUnextended cs)
    (by simp [KeptUnextended]) fun acc e he h => keepChain_keptUnextended hd h he
  rw [heq] at hc
  exact hacc c hc t ht o ho hot

theorem pruneChains_suffix {c : Chain} (hc : c ∈ pruneChains d cs) :
    c.length ≤ d ∧ ∃ o ∈ cs, c.records <:+ o.records := by
  obtain ⟨o, ho, rfl⟩ := mem_pruneChains hc
  refine ⟨?_, o, ho, List.drop_suffix _ _⟩
  simp only [Chain.length, Chain.trim_records, List.length_drop]
  omega

theorem tip?_of_mem_pruneChains (hd : 0 < d) {c : Chain} (hc : c ∈ pruneChains d cs)
    {t : BlockRecord} (ht : c.tip? = some t) : ∃ o ∈ cs, o.tip? = some t := by
  obtain ⟨o, ho, rfl⟩ := mem_pruneChains hc
  exact ⟨o, ho, by rwa [Chain.tip?_trim _ hd] at ht⟩

end Prune

/-! ## The most work among the tips -/

def SameRecords (cs : List Chain) : Prop :=
  ∀ c ∈ cs, ∀ c' ∈ cs, ∀ r ∈ c.records, ∀ r' ∈ c'.records, r.hash = r'.hash →
    r.height = r'.height ∧ r.work = r'.work

section Work

variable {d : Nat} {cs : List Chain}

theorem exists_pruned_tip_work_ge (hd : 0 < d) (hlink : ∀ c ∈ cs, Linked c.records)
    (hwork : ∀ c ∈ cs, (c.records.map (·.work)).IsChain (· ≤ ·)) (hsame : SameRecords cs)
    {c : Chain} (hc : c ∈ cs) {t : BlockRecord} (ht : c.tip? = some t) :
    ∃ c' ∈ pruneChains d cs, ∃ t', c'.tip? = some t' ∧ t.work ≤ t'.work := by
  have htm : t ∈ c.records := List.mem_of_getLast? ht
  by_cases hext : ∀ o ∈ cs, o.contains t.hash = true → o.tip?.map (·.hash) = some t.hash
  · -- no candidate runs past the tip, so a chain ending at its hash is kept
    obtain ⟨c', hc', hch⟩ := exists_pruneChains_tip hd hc ht hext
    obtain ⟨t', ht', hth⟩ := Option.map_eq_some_iff.mp hch
    obtain ⟨o, ho, hot⟩ := tip?_of_mem_pruneChains hd hc' ht'
    exact ⟨c', hc', t', ht', (hsame c hc o ho t htm t' (List.mem_of_getLast? hot) hth.symm).2.le⟩
  · -- a candidate with another tip holds the tip's hash, lower than its own tip
    push Not at hext
    obtain ⟨o, ho, hcont, hne⟩ := hext
    obtain ⟨x, hx, hxh⟩ : ∃ x ∈ o.records, x.hash = t.hash := by
      simpa [Chain.contains] using hcont
    obtain ⟨u, hu⟩ : ∃ u, o.tip? = some u :=
      Option.isSome_iff_exists.mp (List.getLast?_isSome.mpr (List.ne_nil_of_mem hx))
    have hxu := (hlink o ho).lt_last (hwork o ho) hx hu (by
      rw [hxh]
      intro he
      exact hne (by rw [hu, he]; rfl))
    have hxt := hsame o ho c hc x hx t htm hxh
    obtain ⟨c', hc', t', ht', hw⟩ := exists_pruned_tip_work_ge hd hlink hwork hsame ho hu
    exact ⟨c', hc', t', ht', by omega⟩
termination_by ((cs.flatMap (·.records)).map (·.height)).sum - t.height
decreasing_by
  -- each step goes to a higher tip, and no record's height passes the sum of all of them
  have : u.height ≤ ((cs.flatMap (·.records)).map (·.height)).sum :=
    List.le_sum_of_mem
      (List.mem_map_of_mem (List.mem_flatMap.mpr ⟨o, ho, List.mem_of_getLast? hu⟩))
  omega

theorem pruneChains_max_work (hd : 0 < d) (hlink : ∀ c ∈ cs, Linked c.records)
    (hwork : ∀ c ∈ cs, (c.records.map (·.work)).IsChain (· ≤ ·)) (hsame : SameRecords cs) :
    (((pruneChains d cs).filterMap (·.tip?)).map (·.work)).max? =
      ((cs.filterMap (·.tip?)).map (·.work)).max? := by
  refine max?_eq_of_dominate (fun w hw => ?_) (fun w hw => ?_)
  · obtain ⟨t, ht, rfl⟩ := List.mem_map.mp hw
    obtain ⟨c, hc, hct⟩ := List.mem_filterMap.mp ht
    obtain ⟨o, ho, hot⟩ := tip?_of_mem_pruneChains hd hc hct
    exact ⟨t.work, List.mem_map_of_mem (List.mem_filterMap.mpr ⟨o, ho, hot⟩), le_rfl⟩
  · obtain ⟨t, ht, rfl⟩ := List.mem_map.mp hw
    obtain ⟨c, hc, hct⟩ := List.mem_filterMap.mp ht
    obtain ⟨c', hc', t', ht', hle⟩ := exists_pruned_tip_work_ge hd hlink hwork hsame hc hct
    exact ⟨t'.work, List.mem_map_of_mem (List.mem_filterMap.mpr ⟨c', hc', ht'⟩), hle⟩

end Work

/-! ## What pruning keeps -/

/-- Pruning keeps the candidates no other candidate runs past: the kept tips are distinct; no
kept tip lies inside a candidate with another tip; each kept chain is a suffix of a candidate, no
longer than the depth; and when a hash names one height and one amount of work across the
candidates, the most work of a kept tip is the most work of a candidate tip. -/
theorem prune_keeps_maximal_candidates {d : Nat} (hd : 0 < d) (cs : List Chain)
    (hlink : ∀ c ∈ cs, Linked c.records)
    (hwork : ∀ c ∈ cs, (c.records.map (·.work)).IsChain (· ≤ ·)) :
    ((pruneChains d cs).map (·.tip?.map (·.hash))).Nodup ∧
    (∀ c ∈ pruneChains d cs, ∀ t, c.tip? = some t →
      ∀ o ∈ cs, o.tip?.map (·.hash) ≠ some t.hash → o.contains t.hash = false) ∧
    (∀ c ∈ pruneChains d cs, c.length ≤ d ∧ ∃ o ∈ cs, c.records <:+ o.records) ∧
    (SameRecords cs →
      (((pruneChains d cs).filterMap (·.tip?)).map (·.work)).max? =
        ((cs.filterMap (·.tip?)).map (·.work)).max?) :=
  ⟨pruneChains_tips_nodup hd, fun _ hc _ ht _ ho hot => pruneChains_unextended hd hc ht ho hot,
    fun _ hc => pruneChains_suffix hc,
    pruneChains_max_work hd hlink hwork⟩

/-- The test network's genesis block alone, with work 100; and the same block with work 2 under
a child with work 4. -/
def richGenesisChain : Chain := ⟨[BlockRecord.new Network.regtest.params.genesis 0 100]⟩

def staleForkChain : Chain :=
  ⟨[BlockRecord.new Network.regtest.params.genesis 0 2, BlockRecord.new staleChild 1 4]⟩

theorem staleFork_linked : ∀ c ∈ [richGenesisChain, staleForkChain], Linked c.records := by
  simp only [List.mem_cons, List.not_mem_nil, or_false]
  rintro c (rfl | rfl)
  · trivial
  · exact ⟨⟨rfl, rfl⟩, trivial⟩

theorem staleFork_work_rises :
    ∀ c ∈ [richGenesisChain, staleForkChain], (c.records.map (·.work)).IsChain (· ≤ ·) := by
  simp only [List.mem_cons, List.not_mem_nil, or_false]
  rintro c (rfl | rfl) <;> decide

theorem keepChain_richGenesis :
    keepChain 2016 [richGenesisChain, staleForkChain] ([], []) (richGenesisChain, 0) = ([], []) := by
  simp [keepChain, richGenesisChain, staleForkChain, Chain.tip?, Chain.contains, BlockRecord.new,
    Ne.symm genesis_hash_ne_staleChild]

theorem keepChain_staleFork :
    keepChain 2016 [richGenesisChain, staleForkChain] ([], []) (staleForkChain, 1) =
      ([staleChild.hash], [staleForkChain]) := by
  simp [keepChain, richGenesisChain, staleForkChain, Chain.tip?, Chain.contains, BlockRecord.new,
    genesis_hash_ne_staleChild]
  rfl

theorem pruneChains_staleFork :
    pruneChains 2016 [richGenesisChain, staleForkChain] = [staleForkChain] := by
  rw [pruneChains, show [richGenesisChain, staleForkChain].zipIdx =
      [(richGenesisChain, 0), (staleForkChain, 1)] from rfl,
    List.foldl_cons, List.foldl_cons, List.foldl_nil, keepChain_richGenesis, keepChain_staleFork]

/-- When a block has more work in one candidate than in another that builds on it, pruning drops
the candidate with the most work. -/
theorem pruned_tip_loses_most_work :
    (∀ c ∈ [richGenesisChain, staleForkChain], Linked c.records) ∧
    (∀ c ∈ [richGenesisChain, staleForkChain], (c.records.map (·.work)).IsChain (· ≤ ·)) ∧
    (([richGenesisChain, staleForkChain].filterMap (·.tip?)).map (·.work)).max? = some 100 ∧
    (((pruneChains 2016 [richGenesisChain, staleForkChain]).filterMap (·.tip?)).map
      (·.work)).max? = some 4 := by
  refine ⟨staleFork_linked, staleFork_work_rises, rfl, ?_⟩
  · rw [pruneChains_staleFork]
    rfl

/-- The fork of the test network's genesis block, pruned to the usual depth. -/
theorem staleFork_keeps_maximal_candidates :
    0 < 2016 ∧
    (∀ c ∈ [richGenesisChain, staleForkChain], Linked c.records) ∧
    (∀ c ∈ [richGenesisChain, staleForkChain], (c.records.map (·.work)).IsChain (· ≤ ·)) ∧
    (((pruneChains 2016 [richGenesisChain, staleForkChain]).map (·.tip?.map (·.hash))).Nodup ∧
    (∀ c ∈ pruneChains 2016 [richGenesisChain, staleForkChain], ∀ t, c.tip? = some t →
      ∀ o ∈ [richGenesisChain, staleForkChain], o.tip?.map (·.hash) ≠ some t.hash →
        o.contains t.hash = false) ∧
    (∀ c ∈ pruneChains 2016 [richGenesisChain, staleForkChain], c.length ≤ 2016 ∧
      ∃ o ∈ [richGenesisChain, staleForkChain], c.records <:+ o.records) ∧
    (SameRecords [richGenesisChain, staleForkChain] →
      (((pruneChains 2016 [richGenesisChain, staleForkChain]).filterMap (·.tip?)).map
        (·.work)).max? =
        (([richGenesisChain, staleForkChain].filterMap (·.tip?)).map (·.work)).max?)) :=
  ⟨by decide, staleFork_linked, staleFork_work_rises,
    prune_keeps_maximal_candidates (by decide) [richGenesisChain, staleForkChain] staleFork_linked
      staleFork_work_rises⟩

end View

end BitcoinLight
