import BitcoinLight.Proofs.Connect
import BitcoinLight.Node.Headers

set_option autoImplicit false

/-!
# A batch of headers, before and after connecting

A batch is cut down to new headers, each hash once and none stored; the stored chains ending at
their parents join the candidates; the records gained are kept once per hash; and the candidates
are pruned to those whose tip no other candidate runs past.
-/

namespace BitcoinLight

section FirstOfEachKey

variable {α : Type} (key : α → Hash256)

theorem mem_keepFirstKey {acc : List α} {x y : α} (h : y ∈ keepFirstKey key acc x) :
    y ∈ acc ∨ y = x := by
  unfold keepFirstKey at h
  split at h
  · exact .inl h
  · simpa using h

theorem keys_keepFirstKey (acc : List α) (x : α) (k : Hash256) :
    k ∈ (keepFirstKey key acc x).map key ↔ k ∈ acc.map key ∨ k = key x := by
  unfold keepFirstKey
  split
  · rename_i h
    have hx : key x ∈ acc.map key := by
      obtain ⟨y, hy, hk⟩ := List.any_eq_true.mp h
      exact List.mem_map.mpr ⟨y, hy, by simpa using hk⟩
    constructor
    · exact .inl
    · rintro (hk | rfl)
      · exact hk
      · exact hx
  · simp

theorem nodup_keepFirstKey {acc : List α} (hacc : (acc.map key).Nodup) (x : α) :
    ((keepFirstKey key acc x).map key).Nodup := by
  unfold keepFirstKey
  split
  · exact hacc
  · rename_i h
    have hx : key x ∉ acc.map key := by
      intro hx
      obtain ⟨y, hy, hk⟩ := List.mem_map.mp hx
      exact h (List.any_eq_true.mpr ⟨y, hy, by simp [hk]⟩)
    simpa using List.nodup_append.mpr ⟨hacc, by simp, by simpa using hx⟩

theorem foldl_keepFirstKey_mem : ∀ (xs acc : List α) {y : α},
    y ∈ xs.foldl (keepFirstKey key) acc → y ∈ acc ∨ y ∈ xs
  | [], _, _, h => .inl h
  | x :: xs, acc, y, h => by
    rcases foldl_keepFirstKey_mem xs _ h with h | h
    · rcases mem_keepFirstKey key h with h | rfl
      · exact .inl h
      · exact .inr List.mem_cons_self
    · exact .inr (List.mem_cons_of_mem _ h)

theorem foldl_keepFirstKey_keys : ∀ (xs acc : List α) (k : Hash256),
    k ∈ (xs.foldl (keepFirstKey key) acc).map key ↔ k ∈ acc.map key ∨ k ∈ xs.map key
  | [], _, _ => by simp
  | x :: xs, acc, k => by
    rw [List.foldl_cons, foldl_keepFirstKey_keys xs, keys_keepFirstKey]
    simp only [List.map_cons, List.mem_cons]
    tauto

theorem foldl_keepFirstKey_nodup : ∀ (xs acc : List α), (acc.map key).Nodup →
    ((xs.foldl (keepFirstKey key) acc).map key).Nodup
  | [], _, h => h
  | x :: xs, _, h => foldl_keepFirstKey_nodup xs _ (nodup_keepFirstKey key h x)

theorem mem_firstOfEachKey {xs : List α} {y : α} (h : y ∈ firstOfEachKey key xs) : y ∈ xs :=
  (foldl_keepFirstKey_mem key xs [] h).resolve_left (by simp)

theorem keys_firstOfEachKey (xs : List α) (k : Hash256) :
    k ∈ (firstOfEachKey key xs).map key ↔ k ∈ xs.map key := by
  simpa [firstOfEachKey] using foldl_keepFirstKey_keys key xs [] k

theorem nodup_firstOfEachKey (xs : List α) : ((firstOfEachKey key xs).map key).Nodup :=
  foldl_keepFirstKey_nodup key xs [] (by simp)

theorem exists_firstOfEachKey {xs : List α} {x : α} (hx : x ∈ xs) :
    ∃ y ∈ firstOfEachKey key xs, key y = key x :=
  List.mem_map.mp ((keys_firstOfEachKey key xs _).mpr (List.mem_map_of_mem hx))

end FirstOfEachKey

namespace View

theorem mem_distinctByHash {hs : List Header} {p : Hash256 × Header}
    (hp : p ∈ distinctByHash hs) : p.2 ∈ hs ∧ p.1 = p.2.hash := by
  obtain ⟨h, hh, rfl⟩ := List.mem_map.mp (mem_firstOfEachKey _ hp)
  exact ⟨hh, rfl⟩

theorem freshHeaders_spec (s : Store) (cs : List Chain) (hs : List Header) :
    ((freshHeaders s cs hs).map (·.hash)).Nodup ∧
      ∀ h ∈ freshHeaders s cs hs, ∀ r ∈ s.headers, r.hash ≠ h.hash := by
  unfold freshHeaders
  dsimp only
  generalize hu : (distinctByHash hs).filter _ = unseen
  have hsub : unseen.Sublist (distinctByHash hs) := hu ▸ List.filter_sublist
  have hkey : ∀ p ∈ unseen, p.1 = p.2.hash := fun p hp => (mem_distinctByHash (hsub.subset hp)).2
  constructor
  · -- the hashes are the pairs' keys, which `distinctByHash` keeps once each
    rw [List.map_map]
    have hmap : ∀ p ∈ unseen.filter (fun p => !((s.findByHashes (unseen.map (·.1))).map
        (·.hash)).contains p.1), ((·.hash) ∘ (·.2)) p = p.1 := fun p hp =>
      (hkey p (List.mem_filter.mp hp).1).symm
    rw [List.map_congr_left hmap]
    exact ((List.filter_sublist.trans hsub).map _).nodup (nodup_firstOfEachKey _ _)
  · intro h hh r hr hrh
    obtain ⟨p, hp, rfl⟩ := List.mem_map.mp hh
    obtain ⟨hpu, hps⟩ := List.mem_filter.mp hp
    -- a stored record with the header's hash would be among those looked up
    obtain ⟨r', hr'⟩ : ∃ r', s.findByHash p.1 = some r' := by
      refine Option.isSome_iff_exists.mp ?_
      simp only [Store.findByHash, List.find?_isSome, beq_iff_eq]
      exact ⟨r, hr, hrh.trans (hkey p hpu).symm⟩
    have hfound : r' ∈ s.findByHashes (unseen.map (·.1)) :=
      List.mem_filterMap.mpr ⟨p.1, List.mem_map_of_mem hpu, hr'⟩
    have hin : p.1 ∈ (s.findByHashes (unseen.map (·.1))).map (·.hash) := by
      rw [← (Store.findByHash_spec hr').1]
      exact List.mem_map_of_mem hfound
    simp [hin] at hps

theorem mem_withForkParents {s : Store} {d : Nat} {batch : List Hash256} {cs : List Chain}
    {hs : List Header} {c : Chain} (hc : c ∈ withForkParents s d batch cs hs) :
    c ∈ cs ∨ ∃ h r, s.findByHash h = some r ∧ c = s.chainTo r d := by
  unfold withForkParents at hc
  refine List.foldlRecOn (motive := fun (acc : List Chain × List Hash256) =>
    ∀ c ∈ acc.1, c ∈ cs ∨ ∃ h r, s.findByHash h = some r ∧ c = s.chainTo r d) hs _
    (fun c hc => .inl hc) ?_ c hc
  intro acc hacc h _ c hc
  dsimp only at hc
  split at hc
  · exact hacc c hc
  · split at hc
    · rename_i c' hc'
      rcases List.mem_append.mp hc with hc | hc
      · exact hacc c hc
      · rw [List.mem_singleton.mp hc]
        obtain ⟨r, hr, rfl⟩ := Store.blockchainFrom_spec hc'
        exact .inr ⟨_, r, hr, rfl⟩
    · exact hacc c hc

theorem subset_withForkParents {s : Store} {d : Nat} {batch : List Hash256} {cs : List Chain}
    {hs : List Header} {c : Chain} (hc : c ∈ cs) : c ∈ withForkParents s d batch cs hs := by
  unfold withForkParents
  refine List.foldlRecOn (motive := fun (acc : List Chain × List Hash256) => c ∈ acc.1) hs _ hc ?_
  intro acc hacc h _
  dsimp only
  split
  · exact hacc
  · split
    · exact List.mem_append_left _ hacc
    · exact hacc

theorem mem_connectedRecords {us : List ChainUpdate} {r : BlockRecord}
    (hr : r ∈ connectedRecords us) : r ∈ ChainUpdate.allConnected us :=
  mem_firstOfEachKey _ hr

theorem exists_connectedRecords {us : List ChainUpdate} {r : BlockRecord}
    (hr : r ∈ ChainUpdate.allConnected us) : ∃ r' ∈ connectedRecords us, r'.hash = r.hash :=
  exists_firstOfEachKey _ hr

theorem nodup_connectedRecords (us : List ChainUpdate) :
    ((connectedRecords us).map (·.hash)).Nodup :=
  nodup_firstOfEachKey _ _

section Prune

variable {d : Nat} {cs : List Chain}

theorem mem_keepChain {acc : List Hash256 × List Chain} {e : Chain × Nat} {c : Chain}
    (hc : c ∈ (keepChain d cs acc e).2) : c ∈ acc.2 ∨ c = e.1.trim d := by
  unfold keepChain at hc
  dsimp only at hc
  split at hc
  · exact .inl hc
  · split at hc
    · exact .inl hc
    · simpa using hc

def KeptTips (acc : List Hash256 × List Chain) : Prop :=
  ∀ x ∈ acc.1, ∃ c ∈ acc.2, c.tip?.map (·.hash) = some x

theorem keepChain_keptTips (hd : 0 < d) {acc : List Hash256 × List Chain} (hk : KeptTips acc)
    (e : Chain × Nat) : KeptTips (keepChain d cs acc e) := by
  unfold keepChain
  dsimp only
  split
  · exact hk
  · rename_i t ht
    split
    · exact hk
    · intro x hx
      rcases List.mem_append.mp hx with hx | hx
      · obtain ⟨c, hc, htip⟩ := hk x hx
        exact ⟨c, List.mem_append_left _ hc, htip⟩
      · refine ⟨e.1.trim d, by simp, ?_⟩
        rw [Chain.tip?_trim _ hd, ht, List.mem_singleton.mp hx]
        rfl

theorem fst_subset_keepChain {acc : List Hash256 × List Chain} {e : Chain × Nat} {x : Hash256}
    (hx : x ∈ acc.1) : x ∈ (keepChain d cs acc e).1 := by
  unfold keepChain
  dsimp only
  split
  · exact hx
  · split
    · exact hx
    · exact List.mem_append_left _ hx

theorem keepChain_tip {acc : List Hash256 × List Chain} {c : Chain} {i : Nat} {t : BlockRecord}
    (ht : c.tip? = some t)
    (hext : ∀ o ∈ cs, o.contains t.hash = true → o.tip?.map (·.hash) = some t.hash) :
    t.hash ∈ (keepChain d cs acc (c, i)).1 := by
  unfold keepChain
  simp only [ht]
  split
  · rename_i hcond
    rcases Bool.or_eq_true_iff.mp hcond with hany | hin
    · -- a chain containing the tip ends at it, so no chain with another tip contains it
      obtain ⟨⟨o, j⟩, hoj, hp⟩ := List.any_eq_true.mp hany
      have hj : cs[j]? = some o := List.mem_zipIdx_iff_getElem?.mp hoj
      simp only [Bool.and_eq_true, bne_iff_ne, ne_eq] at hp
      obtain ⟨⟨-, htip⟩, hc⟩ := hp
      exact absurd (by simp [hj, hext o (List.mem_of_getElem? hj) hc]) htip
    · simpa using hin
  · simp

theorem foldl_keepChain_inv (P : List Hash256 × List Chain → Prop) {Q : Chain × Nat → Prop}
    (step : ∀ acc e, Q e → P acc → P (keepChain d cs acc e)) :
    ∀ l : List (Chain × Nat), (∀ e ∈ l, Q e) → ∀ acc, P acc → P (l.foldl (keepChain d cs) acc)
  | [], _, _, h => h
  | e :: l, hl, acc, h =>
    foldl_keepChain_inv P step l (fun e' he' => hl e' (List.mem_cons_of_mem _ he')) _
      (step acc e (hl e List.mem_cons_self) h)

theorem foldl_keepChain_keptTips (hd : 0 < d) (l : List (Chain × Nat))
    (acc : List Hash256 × List Chain) (hk : KeptTips acc) :
    KeptTips (l.foldl (keepChain d cs) acc) :=
  foldl_keepChain_inv KeptTips (Q := fun _ => True) (fun _ e _ h => keepChain_keptTips hd h e) l
    (fun _ _ => trivial) acc hk

theorem foldl_keepChain_fst (l : List (Chain × Nat)) (acc : List Hash256 × List Chain)
    {x : Hash256} (hx : x ∈ acc.1) : x ∈ (l.foldl (keepChain d cs) acc).1 :=
  foldl_keepChain_inv (fun acc => x ∈ acc.1) (Q := fun _ => True)
    (fun _ _ _ h => fst_subset_keepChain h) l (fun _ _ => trivial) acc hx

theorem foldl_keepChain_snd : ∀ (l : List (Chain × Nat)) (acc : List Hash256 × List Chain)
    {c : Chain}, c ∈ (l.foldl (keepChain d cs) acc).2 → c ∈ acc.2 ∨ ∃ e ∈ l, c = e.1.trim d
  | [], _, _, hc => .inl hc
  | e :: l, acc, c, hc => by
    rcases foldl_keepChain_snd l _ hc with hc | ⟨e', he', rfl⟩
    · rcases mem_keepChain hc with hc | rfl
      · exact .inl hc
      · exact .inr ⟨e, List.mem_cons_self, rfl⟩
    · exact .inr ⟨e', List.mem_cons_of_mem _ he', rfl⟩

theorem mem_pruneChains {c : Chain} (hc : c ∈ pruneChains d cs) : ∃ c' ∈ cs, c = c'.trim d := by
  rcases foldl_keepChain_snd _ _ hc with hc | ⟨e, he, rfl⟩
  · simp at hc
  · exact ⟨e.1, List.fst_mem_of_mem_zipIdx he, rfl⟩

theorem exists_pruneChains_tip (hd : 0 < d) {c : Chain} {t : BlockRecord} (hc : c ∈ cs)
    (ht : c.tip? = some t)
    (hext : ∀ o ∈ cs, o.contains t.hash = true → o.tip?.map (·.hash) = some t.hash) :
    ∃ c' ∈ pruneChains d cs, c'.tip?.map (·.hash) = some t.hash := by
  obtain ⟨i, hi⟩ := List.mem_iff_getElem?.mp hc
  have hz : (c, i) ∈ cs.zipIdx := List.mem_zipIdx_iff_getElem?.mpr hi
  obtain ⟨l₁, l₂, hl⟩ := List.append_of_mem hz
  unfold pruneChains
  rw [hl, List.foldl_append, List.foldl_cons]
  -- the chain's turn keeps its tip's hash; every later turn keeps what was kept
  refine foldl_keepChain_keptTips hd l₂ _ ?_ _ (foldl_keepChain_fst l₂ _ (keepChain_tip ht hext))
  exact keepChain_keptTips hd (foldl_keepChain_keptTips hd l₁ _ (by simp [KeptTips])) (c, i)

end Prune

end View

end BitcoinLight
