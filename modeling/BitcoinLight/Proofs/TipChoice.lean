import BitcoinLight.Proofs.BestChain
import BitcoinLight.Proofs.FilterChain

set_option autoImplicit false

/-!
# Which tip is best, and whether the order of the tips matters

The best tip carries the most work and, of those, the least time; tips given again under one
hash count once. A tie on time keeps the first tip given, so the choice depends on the order of
the tips exactly when two tips of different hashes tie on both work and time: the two siblings
on the test network's genesis block do. Without such a tie every order gives the same hash, and a
view of the latest generation picks from its candidate chains the block that the store's chain
tips give.

Two records of one hash have one header unless double SHA-256 collides (`HashCollision`); the
store keeps one record per hash, so its records never do.
-/

namespace BitcoinLight

/-! ## The best tips of a list -/

def IsBestTip (ts : List BlockRecord) (b : BlockRecord) : Prop :=
  b ∈ ts ∧ (∀ t ∈ ts, t.work ≤ b.work) ∧ ∀ t ∈ ts, t.work = b.work → b.timestamp ≤ t.timestamp

instance (ts : List BlockRecord) (b : BlockRecord) : Decidable (IsBestTip ts b) :=
  inferInstanceAs (Decidable (_ ∧ _ ∧ _))

def TieBroken (ts : List BlockRecord) : Prop :=
  ∀ a ∈ ts, ∀ b ∈ ts, IsBestTip ts a → IsBestTip ts b → a.hash = b.hash

instance (ts : List BlockRecord) : Decidable (TieBroken ts) :=
  inferInstanceAs (Decidable (∀ a ∈ ts, ∀ b ∈ ts, _))

def HashCollision (rs : List BlockRecord) : Prop :=
  ∃ a ∈ rs, ∃ b ∈ rs, a.hash = b.hash ∧ a.header ≠ b.header

theorem earliest_eq_none_iff {rs : List BlockRecord} : earliest rs = none ↔ rs = [] := by
  cases rs with
  | nil => simp [earliest]
  | cons r rest => simpa using earliest_cons_ne_none r rest

theorem earliest_le {e : BlockRecord} : ∀ {rs : List BlockRecord}, earliest rs = some e →
    ∀ r ∈ rs, e.timestamp ≤ r.timestamp
  | [], h => by simp [earliest] at h
  | r :: rest, h => by
    intro x hx
    rcases earliest_cons_eq_some h with ⟨he, hlt⟩ | ⟨rfl, hle⟩
    · rcases List.mem_cons.mp hx with rfl | hx
      · exact UInt32.le_of_lt hlt
      · exact earliest_le he x hx
    · rcases List.mem_cons.mp hx with rfl | hx
      · exact UInt32.le_refl _
      · -- the rest has an earliest record, and it is no earlier than `r`
        obtain ⟨e', he'⟩ := Option.ne_none_iff_exists'.mp
          (mt earliest_eq_none_iff.mp (List.ne_nil_of_mem hx))
        exact UInt32.le_trans (hle e' he') (earliest_le he' x hx)

theorem nodup_mostWorkTips (ts : List BlockRecord) : ((mostWorkTips ts).map (·.hash)).Nodup := by
  unfold mostWorkTips
  split
  · exact List.nodup_nil
  · exact nodup_firstOfEachKey _ _

theorem bestTip_eq_none_iff {ts : List BlockRecord} : bestTip ts = none ↔ ts = [] := by
  unfold bestTip
  rw [earliest_eq_none_iff]
  constructor
  · intro h
    by_contra hts
    exact mostWorkTips_ne_nil hts h
  · rintro rfl
    rfl

theorem exists_mostWorkTips_hash {ts : List BlockRecord} {t : BlockRecord} (ht : t ∈ ts)
    (hmax : ∀ u ∈ ts, u.work ≤ t.work) : ∃ r ∈ mostWorkTips ts, r.hash = t.hash := by
  have hm : (ts.map (·.work)).max? = some t.work :=
    List.max?_eq_some_iff.mpr ⟨List.mem_map_of_mem ht, by simpa using hmax⟩
  unfold mostWorkTips
  simp only [hm]
  have hft : t ∈ ts.filter (·.work == t.work) := List.mem_filter.mpr ⟨ht, beq_self_eq_true _⟩
  exact exists_firstOfEachKey (·.hash) hft

theorem isBestTip_of_bestTip {ts : List BlockRecord} {b : BlockRecord} (hc : ¬HashCollision ts)
    (h : bestTip ts = some b) : IsBestTip ts b := by
  obtain ⟨hbm, hmax⟩ := bestTip_spec h
  refine ⟨hbm, hmax, fun t ht hw => ?_⟩
  -- `t` has the most work; the tip kept under its hash has its header, so its time
  obtain ⟨r, hr, hrh⟩ := exists_mostWorkTips_hash ht fun u hu => (hmax u hu).trans hw.ge
  have hhead : r.header = t.header := by
    by_contra hne
    exact hc ⟨r, (mem_mostWorkTips hr).1, t, ht, hrh, hne⟩
  calc b.timestamp ≤ r.timestamp := earliest_le h r hr
    _ = t.timestamp := congrArg Header.timestamp hhead

/-! ## Tips given again -/

section Repeats

variable {α : Type} (key : α → Hash256)

theorem foldl_keepFirstKey_of_mem : ∀ (ys acc : List α), (∀ y ∈ ys, key y ∈ acc.map key) →
    ys.foldl (keepFirstKey key) acc = acc
  | [], _, _ => rfl
  | y :: ys, acc, h => by
    have hy : keepFirstKey key acc y = acc := by
      obtain ⟨z, hz, hzk⟩ := List.mem_map.mp (h y List.mem_cons_self)
      unfold keepFirstKey
      rw [if_pos (List.any_eq_true.mpr ⟨z, hz, by simp [hzk]⟩)]
    rw [List.foldl_cons, hy]
    exact foldl_keepFirstKey_of_mem ys acc fun y' hy' => h y' (List.mem_cons_of_mem _ hy')

theorem firstOfEachKey_append_of_keys {xs ys : List α} (h : ∀ y ∈ ys, key y ∈ xs.map key) :
    firstOfEachKey key (xs ++ ys) = firstOfEachKey key xs := by
  unfold firstOfEachKey
  rw [List.foldl_append]
  refine foldl_keepFirstKey_of_mem key ys _ fun y hy => ?_
  exact (keys_firstOfEachKey key xs (key y)).mpr (h y hy)

end Repeats

theorem mostWorkTips_append_of_subset {ts us : List BlockRecord} (h : ∀ u ∈ us, u ∈ ts) :
    mostWorkTips (ts ++ us) = mostWorkTips ts := by
  rcases hm : (ts.map (·.work)).max? with _ | m
  · -- no tips, so none given again
    have hts : ts = [] := by simpa using hm
    subst hts
    have hus : us = [] := List.eq_nil_iff_forall_not_mem.mpr fun u hu => by simpa using h u hu
    subst hus
    rfl
  have hm' : ((ts ++ us).map (·.work)).max? = some m := by
    obtain ⟨hmem, hle⟩ := List.max?_eq_some_iff.mp hm
    refine List.max?_eq_some_iff.mpr ⟨List.mem_map.mpr ?_, fun w hw => ?_⟩
    · obtain ⟨t, ht, htm⟩ := List.mem_map.mp hmem
      exact ⟨t, List.mem_append_left _ ht, htm⟩
    · obtain ⟨t, ht, rfl⟩ := List.mem_map.mp hw
      rcases List.mem_append.mp ht with ht | ht
      · exact hle _ (List.mem_map_of_mem ht)
      · exact hle _ (List.mem_map_of_mem (h t ht))
  unfold mostWorkTips
  simp only [hm, hm', List.filter_append]
  refine firstOfEachKey_append_of_keys _ fun u hu => ?_
  obtain ⟨hu, hw⟩ := List.mem_filter.mp hu
  exact List.mem_map_of_mem (List.mem_filter.mpr ⟨h u hu, hw⟩)

theorem bestTip_append_of_subset {ts us : List BlockRecord} (h : ∀ u ∈ us, u ∈ ts) :
    bestTip (ts ++ us) = bestTip ts := by
  unfold bestTip
  rw [mostWorkTips_append_of_subset h]

/-! ## Reordering the tips -/

theorem isBestTip_perm {ts ts' : List BlockRecord} (hp : ts'.Perm ts) {b : BlockRecord} :
    IsBestTip ts' b ↔ IsBestTip ts b := by
  simp only [IsBestTip, hp.mem_iff]

theorem hashCollision_perm {ts ts' : List BlockRecord} (hp : ts'.Perm ts) :
    HashCollision ts' ↔ HashCollision ts := by
  simp only [HashCollision, hp.mem_iff]

theorem bestTip_hash_perm {ts ts' : List BlockRecord} (hp : ts'.Perm ts) (hc : ¬HashCollision ts)
    (htie : TieBroken ts) : (bestTip ts').map (·.hash) = (bestTip ts).map (·.hash) := by
  rcases hb : bestTip ts with _ | b
  · rw [bestTip_eq_none_iff] at hb
    subst hb
    rw [hp.eq_nil]
    rfl
  have hts' : ts' ≠ [] := by
    intro h0
    rw [h0, List.nil_perm] at hp
    rw [hp] at hb
    cases hb
  obtain ⟨b', hb'⟩ := bestTip_isSome hts'
  have hbest := isBestTip_of_bestTip hc hb
  have hbest' := (isBestTip_perm hp).mp
    (isBestTip_of_bestTip (mt (hashCollision_perm hp).mp hc) hb')
  rw [hb', Option.map_some, Option.map_some, htie b' hbest'.1 b hbest.1 hbest' hbest]

/-! ## Two tips tied on work and time -/

theorem bestTip_tied_pair {a b : BlockRecord} (hw : b.work = a.work)
    (ht : b.timestamp = a.timestamp) (hh : a.hash ≠ b.hash) : bestTip [a, b] = some a := by
  simp [bestTip, mostWorkTips, firstOfEachKey, keepFirstKey, hw, hh, earliest, ht]

/-- The records of the two siblings on the test network's genesis block: the same height, work
and time. -/
def siblingARecord : BlockRecord := (BlockRecord.genesis Network.regtest.params).child siblingA

def siblingBRecord : BlockRecord := (BlockRecord.genesis Network.regtest.params).child siblingB

theorem siblingA_hash_ne_siblingB : siblingA.hash ≠ siblingB.hash := by
  rw [siblingA_hash, siblingB_hash]
  decide

/-- The two orders of the siblings give different hashes. -/
theorem tied_siblings_order_matters :
    [siblingBRecord, siblingARecord].Perm [siblingARecord, siblingBRecord] ∧
    (bestTip [siblingARecord, siblingBRecord]).map (·.hash) = some siblingA.hash ∧
    (bestTip [siblingBRecord, siblingARecord]).map (·.hash) = some siblingB.hash ∧
    siblingA.hash ≠ siblingB.hash := by
  have hw : siblingBRecord.work = siblingARecord.work := rfl
  have ht : siblingBRecord.timestamp = siblingARecord.timestamp := by
    show siblingB.timestamp = siblingA.timestamp
    rfl
  have hh : siblingARecord.hash = siblingA.hash ∧ siblingBRecord.hash = siblingB.hash := ⟨rfl, rfl⟩
  refine ⟨List.Perm.swap siblingARecord siblingBRecord [], ?_, ?_, siblingA_hash_ne_siblingB⟩
  · rw [bestTip_tied_pair hw ht (by rw [hh.1, hh.2]; exact siblingA_hash_ne_siblingB),
      Option.map_some, hh.1]
  · rw [bestTip_tied_pair hw.symm ht.symm (by rw [hh.1, hh.2]; exact Ne.symm siblingA_hash_ne_siblingB),
      Option.map_some, hh.2]

/-! ## The best header of a latest view -/

def Store.WorkSaturated (s : Store) : Prop := ∃ r ∈ s.headers, r.work = Work.maxU256

namespace HeaderStore

variable {net : Network} {s : Store}

theorem not_hashCollision (hs : HeaderStore net.params s) {rs : List BlockRecord}
    (hrs : ∀ r ∈ rs, r ∈ s.headers) : ¬HashCollision rs := by
  rintro ⟨a, ha, b, hb, hab, hne⟩
  exact hne (congrArg BlockRecord.header (hs.eq_of_hash_eq (hrs a ha) (hrs b hb) hab))

theorem mem_chainTips_of_most_work (hs : HeaderStore net.params s) (hz : ¬s.StoresZeroHash)
    {r : BlockRecord} (hr : r ∈ s.headers) (hsat : r.work ≠ Work.maxU256)
    (hmax : ∀ x ∈ s.headers, x.work ≤ r.work) : r ∈ s.chainTips := by
  refine Store.mem_chainTips.mpr ⟨hr, fun x hx hxr => ?_⟩
  have ha := hs.accepted_of_prevHash hz hr hx hxr
  have hpos : 0 < Work.blockProof x.bits := blockProof_pos ha.pow
  have hle := hs.work_le r hr
  have hw := ha.work_eq
  have hx' := hmax x hx
  unfold Work.addWork at hw
  omega

end HeaderStore

namespace Valid

variable {config : Config} {h : Handler} {v : View}

theorem bestHeader_agrees_with_chainTips (hv : Valid config h) (hvm : v ∈ h.views)
    (hfresh : v.generation = h.node.generationOf v.session) (hz : ¬h.node.store.StoresZeroHash)
    (hsat : ¬h.node.store.WorkSaturated) (htie : TieBroken h.node.store.chainTips) :
    ∃ b c, v.bestHeader h.node.store = .ok b ∧ bestTip h.node.store.chainTips = some c ∧
      b.hash = c.hash := by
  have hcover := hv.chainTips_subset_tips hvm hfresh
  have htips := hv.tips_stored hvm
  have hct : ∀ t ∈ h.node.store.chainTips, t ∈ h.node.store.headers :=
    fun t ht => (Store.mem_chainTips.mp ht).1
  obtain ⟨t, ht, -⟩ := hv.headers.exists_chainTip_work_ge hz _ hv.headers.genesis_mem
  obtain ⟨b, hb⟩ := bestTip_isSome (List.ne_nil_of_mem (hcover t ht))
  obtain ⟨c, hc⟩ := bestTip_isSome (List.ne_nil_of_mem ht)
  have hbest := isBestTip_of_bestTip (hv.headers.not_hashCollision htips) hb
  have hcbest := isBestTip_of_bestTip (hv.headers.not_hashCollision hct) hc
  -- the best candidate tip carries the most work of any stored record
  have hmax : ∀ r ∈ h.node.store.headers, r.work ≤ b.work := fun r hr => by
    obtain ⟨t, ht, hrt⟩ := hv.headers.exists_chainTip_work_ge hz r hr
    exact hrt.trans (hbest.2.1 t (hcover t ht))
  have hbs := htips b hbest.1
  -- so it is a chain tip, and a best one
  have hbt : b ∈ h.node.store.chainTips :=
    hv.headers.mem_chainTips_of_most_work hz hbs (fun he => hsat ⟨b, hbs, he⟩) hmax
  have hbct : IsBestTip h.node.store.chainTips b :=
    ⟨hbt, fun t ht => hmax t (hct t ht), fun t ht hw => hbest.2.2 t (hcover t ht) hw⟩
  exact ⟨b, c, by simp only [View.bestHeader, hb], hc, htie b hbt c hcbest.1 hbct hcbest⟩

end Valid

/-- The best tip has the most work and, of those, the least time; tips given again count once;
and unless two tips of different hashes tie on both work and time, every order of the tips gives
the same hash, and a view of the latest generation picks the block the store's chain tips give.
The exceptions beside the tie need a double SHA-256 collision or preimage of zero, or work that
has reached the 256-bit cap. -/
theorem best_tip_independent_of_order (ts : List BlockRecord) :
    (bestTip ts = none ↔ ts = []) ∧
    (∀ b, bestTip ts = some b → b ∈ ts ∧ (∀ t ∈ ts, t.work ≤ b.work) ∧
      (HashCollision ts ∨ ∀ t ∈ ts, t.work = b.work → b.timestamp ≤ t.timestamp)) ∧
    ((mostWorkTips ts).map (·.hash)).Nodup ∧
    (∀ us : List BlockRecord, (∀ u ∈ us, u ∈ ts) → bestTip (ts ++ us) = bestTip ts) ∧
    (HashCollision ts ∨ ¬TieBroken ts ∨ ∀ ts' : List BlockRecord, ts'.Perm ts →
      (bestTip ts').map (·.hash) = (bestTip ts).map (·.hash)) ∧
    ∀ (config : Config) (h : Handler), Reachable config h → ∀ v ∈ h.views,
      v.generation = h.node.generationOf v.session →
      h.node.store.StoresZeroHash ∨ h.node.store.WorkSaturated ∨
        ¬TieBroken h.node.store.chainTips ∨
        ∃ b c, v.bestHeader h.node.store = .ok b ∧ bestTip h.node.store.chainTips = some c ∧
          b.hash = c.hash := by
  refine ⟨bestTip_eq_none_iff, fun b hb => ?_, nodup_mostWorkTips ts,
    fun us hus => bestTip_append_of_subset hus, ?_, ?_⟩
  · obtain ⟨hbm, hmax⟩ := bestTip_spec hb
    refine ⟨hbm, hmax, ?_⟩
    by_cases hc : HashCollision ts
    · exact .inl hc
    · exact .inr (isBestTip_of_bestTip hc hb).2.2
  · by_cases hc : HashCollision ts
    · exact .inl hc
    by_cases htie : TieBroken ts
    · exact .inr (.inr fun ts' hp => bestTip_hash_perm hp hc htie)
    · exact .inr (.inl htie)
  · intro config h hr v hvm hfresh
    by_cases hz : h.node.store.StoresZeroHash
    · exact .inl hz
    by_cases hsat : h.node.store.WorkSaturated
    · exact .inr (.inl hsat)
    by_cases htie : TieBroken h.node.store.chainTips
    · exact .inr (.inr (.inr (hr.valid.bestHeader_agrees_with_chainTips hvm hfresh hz hsat htie)))
    · exact .inr (.inr (.inl htie))

/-- The two siblings, in the order they arrive. -/
theorem siblings_best_tip_independent_of_order :
    (bestTip [siblingARecord, siblingBRecord] = none ↔ [siblingARecord, siblingBRecord] = []) ∧
    (∀ b, bestTip [siblingARecord, siblingBRecord] = some b →
      b ∈ [siblingARecord, siblingBRecord] ∧
      (∀ t ∈ [siblingARecord, siblingBRecord], t.work ≤ b.work) ∧
      (HashCollision [siblingARecord, siblingBRecord] ∨
        ∀ t ∈ [siblingARecord, siblingBRecord], t.work = b.work → b.timestamp ≤ t.timestamp)) ∧
    ((mostWorkTips [siblingARecord, siblingBRecord]).map (·.hash)).Nodup ∧
    (∀ us : List BlockRecord, (∀ u ∈ us, u ∈ [siblingARecord, siblingBRecord]) →
      bestTip ([siblingARecord, siblingBRecord] ++ us) = bestTip [siblingARecord, siblingBRecord]) ∧
    (HashCollision [siblingARecord, siblingBRecord] ∨ ¬TieBroken [siblingARecord, siblingBRecord] ∨
      ∀ ts' : List BlockRecord, ts'.Perm [siblingARecord, siblingBRecord] →
        (bestTip ts').map (·.hash) = (bestTip [siblingARecord, siblingBRecord]).map (·.hash)) ∧
    ∀ (config : Config) (h : Handler), Reachable config h → ∀ v ∈ h.views,
      v.generation = h.node.generationOf v.session →
      h.node.store.StoresZeroHash ∨ h.node.store.WorkSaturated ∨
        ¬TieBroken h.node.store.chainTips ∨
        ∃ b c, v.bestHeader h.node.store = .ok b ∧ bestTip h.node.store.chainTips = some c ∧
          b.hash = c.hash :=
  best_tip_independent_of_order [siblingARecord, siblingBRecord]

end BitcoinLight
