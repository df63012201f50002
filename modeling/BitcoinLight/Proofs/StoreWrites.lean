import BitcoinLight.Proofs.Chains

set_option autoImplicit false

/-!
# Writes to the store

Each kind of record is kept once per key: block records by hash, filter headers and filters by
block. A write puts its record first and drops any other of its key, so the keys stay distinct
whatever is written; a batch of new records with distinct keys keeps every record stored and
adds its own. Each write leaves the other kinds of record as they were.
-/

namespace BitcoinLight

theorem find?_key_of_mem {α : Type} (key : α → Hash256) {l : List α} (hl : (l.map key).Nodup)
    {x : α} (hx : x ∈ l) : l.find? (fun y => key y == key x) = some x := by
  obtain ⟨y, hy⟩ : ∃ y, l.find? (fun y => key y == key x) = some y :=
    Option.isSome_iff_exists.mp (List.find?_isSome.mpr ⟨x, hx, by simp⟩)
  have hky : key y = key x := by simpa using List.find?_some hy
  rw [hy, List.inj_on_of_nodup_map hl (List.mem_of_find?_eq_some hy) hx hky]

theorem nodup_cons_filter_key {α : Type} (key : α → Hash256) {l : List α}
    (hl : (l.map key).Nodup) (x : α) :
    ((x :: l.filter (fun y => key y != key x)).map key).Nodup := by
  rw [List.map_cons, List.nodup_cons]
  refine ⟨?_, (List.filter_sublist.map key).nodup hl⟩
  simp

theorem mem_foldl_write {α σ : Type} (key : α → Hash256) (get : σ → List α)
    (put : σ → α → σ) (hput : ∀ s x y, y ∈ get (put s x) ↔ y = x ∨ y ∈ get s ∧ key y ≠ key x) :
    ∀ (xs : List α) (s : σ), (xs.map key).Nodup → (∀ x ∈ xs, ∀ y ∈ get s, key y ≠ key x) →
      ∀ y, y ∈ get (xs.foldl put s) ↔ y ∈ get s ∨ y ∈ xs
  | [], s, _, _, y => by simp
  | x :: xs, s, hnd, hnew, y => by
    rw [List.map_cons, List.nodup_cons] at hnd
    have hnew' : ∀ x' ∈ xs, ∀ y ∈ get (put s x), key y ≠ key x' := by
      intro x' hx' y hy
      rcases (hput s x y).mp hy with rfl | ⟨hy, -⟩
      · exact fun he => hnd.1 (he ▸ List.mem_map_of_mem hx')
      · exact hnew x' (List.mem_cons_of_mem _ hx') y hy
    rw [List.foldl_cons, mem_foldl_write key get put hput xs _ hnd.2 hnew' y, hput]
    constructor
    · rintro ((rfl | ⟨hy, -⟩) | hy)
      · exact .inr List.mem_cons_self
      · exact .inl hy
      · exact .inr (List.mem_cons_of_mem _ hy)
    · rintro (hy | hy)
      · exact .inl (.inr ⟨hy, hnew x List.mem_cons_self y hy⟩)
      · rcases List.mem_cons.mp hy with rfl | hy
        · exact .inl (.inl rfl)
        · exact .inr hy

namespace Store

variable {s s' : Store}

/-! ## Block records -/

@[simp] theorem putHeader_headers (s : Store) (r : BlockRecord) :
    (s.putHeader r).headers = r :: s.headers.filter (·.hash != r.hash) := rfl

theorem mem_putHeader {r x : BlockRecord} :
    x ∈ (s.putHeader r).headers ↔ x = r ∨ x ∈ s.headers ∧ x.hash ≠ r.hash := by
  simp

theorem nodup_putHeader (h : (s.headers.map (·.hash)).Nodup) (r : BlockRecord) :
    ((s.putHeader r).headers.map (·.hash)).Nodup :=
  nodup_cons_filter_key (·.hash) h r

theorem nodup_foldl_putHeader : ∀ (rs : List BlockRecord) (s : Store),
    (s.headers.map (·.hash)).Nodup → ((rs.foldl putHeader s).headers.map (·.hash)).Nodup
  | [], _, h => h
  | r :: rs, _, h => nodup_foldl_putHeader rs _ (nodup_putHeader h r)

theorem foldl_putHeader_filters : ∀ (rs : List BlockRecord) (s : Store),
    (rs.foldl putHeader s).filterHeaders = s.filterHeaders ∧
      (rs.foldl putHeader s).filterHeaderHashes = s.filterHeaderHashes ∧
      (rs.foldl putHeader s).filters = s.filters
  | [], _ => ⟨rfl, rfl, rfl⟩
  | r :: rs, s => foldl_putHeader_filters rs (s.putHeader r)

theorem createAll_ok {rs : List BlockRecord} (h : s.createAll rs = .ok s') :
    s' = rs.foldl putHeader s ∧ ∀ r ∈ rs, ∀ x ∈ s.headers, x.hash ≠ r.hash := by
  unfold createAll at h
  split at h
  · cases h
  · rename_i hnone
    cases h
    refine ⟨rfl, fun r hr x hx hxr => ?_⟩
    have hfind : (s.findByHash r.hash).isSome = true := by
      simp only [findByHash, List.find?_isSome, beq_iff_eq]
      exact ⟨x, hx, hxr⟩
    exact absurd hfind (by simpa using List.find?_eq_none.mp hnone r hr)

theorem findByHash_of_mem (hs : (s.headers.map (·.hash)).Nodup) {r : BlockRecord}
    (hr : r ∈ s.headers) : s.findByHash r.hash = some r :=
  find?_key_of_mem BlockRecord.hash hs hr

/-! ## Filter headers -/

@[simp] theorem putFilterHeader_filterHeaders (s : Store) (f : FilterHeaderRecord) :
    (s.putFilterHeader f).filterHeaders = f :: s.filterHeaders.filter (·.blockHash != f.blockHash) :=
  rfl

theorem mem_putFilterHeader {f x : FilterHeaderRecord} :
    x ∈ (s.putFilterHeader f).filterHeaders ↔
      x = f ∨ x ∈ s.filterHeaders ∧ x.blockHash ≠ f.blockHash := by
  simp

theorem nodup_foldl_putFilterHeader : ∀ (fs : List FilterHeaderRecord) (s : Store),
    (s.filterHeaders.map (·.blockHash)).Nodup →
      ((fs.foldl putFilterHeader s).filterHeaders.map (·.blockHash)).Nodup
  | [], _, h => h
  | f :: fs, _, h => nodup_foldl_putFilterHeader fs _ (nodup_cons_filter_key (·.blockHash) h f)

theorem foldl_putFilterHeader_frame : ∀ (fs : List FilterHeaderRecord) (s : Store),
    (fs.foldl putFilterHeader s).headers = s.headers ∧
      (fs.foldl putFilterHeader s).filters = s.filters ∧
      (fs.foldl putFilterHeader s).filterHeaderHashes =
        s.filterHeaderHashes ++ fs.map fun f => (f.hash, f.blockHash)
  | [], _ => by simp
  | f :: fs, s => by
    obtain ⟨h1, h2, h3⟩ := foldl_putFilterHeader_frame fs (s.putFilterHeader f)
    refine ⟨h1, h2, ?_⟩
    rw [List.foldl_cons, h3]
    simp [putFilterHeader]

theorem createFilterHeaders_ok {fs : List FilterHeaderRecord} (h : s.createFilterHeaders fs = .ok s') :
    s' = fs.foldl putFilterHeader s ∧ ∀ f ∈ fs, s.filterHeaderOf f.blockHash = none := by
  unfold createFilterHeaders at h
  split at h
  · cases h
  · rename_i hnone
    cases h
    refine ⟨rfl, fun f hf => ?_⟩
    simpa using List.find?_eq_none.mp hnone f hf

theorem filterHeaderOf_spec {b : Hash256} {f : FilterHeaderRecord}
    (h : s.filterHeaderOf b = some f) : f ∈ s.filterHeaders ∧ f.blockHash = b :=
  ⟨List.mem_of_find?_eq_some h, by simpa using List.find?_some h⟩

theorem filterHeaderOf_of_mem (hs : (s.filterHeaders.map (·.blockHash)).Nodup)
    {f : FilterHeaderRecord} (hf : f ∈ s.filterHeaders) : s.filterHeaderOf f.blockHash = some f :=
  find?_key_of_mem FilterHeaderRecord.blockHash hs hf

theorem filterHeaderOf_eq_none {b : Hash256} (h : s.filterHeaderOf b = none) :
    ∀ f ∈ s.filterHeaders, f.blockHash ≠ b := by
  intro f hf hb
  simpa [hb] using List.find?_eq_none.mp h f hf

theorem findFilterHeader_spec {h : Hash256} {f : FilterHeaderRecord}
    (hf : s.findFilterHeader h = some f) :
    ∃ e ∈ s.filterHeaderHashes, e.1 = h ∧ s.filterHeaderOf e.2 = some f := by
  obtain ⟨e, he, hfe⟩ := Option.bind_eq_some_iff.mp hf
  exact ⟨e, List.mem_of_find?_eq_some he, by simpa using List.find?_some he, hfe⟩

theorem findFilterHeader_isSome {h : Hash256} {b : Hash256} (he : (h, b) ∈ s.filterHeaderHashes)
    (hb : ∀ e ∈ s.filterHeaderHashes, (s.filterHeaderOf e.2).isSome) :
    ∃ f, s.findFilterHeader h = some f := by
  obtain ⟨e, he'⟩ : ∃ e, s.filterHeaderHashes.find? (·.1 == h) = some e :=
    Option.isSome_iff_exists.mp (List.find?_isSome.mpr ⟨(h, b), he, by simp⟩)
  obtain ⟨f, hf⟩ := Option.isSome_iff_exists.mp (hb e (List.mem_of_find?_eq_some he'))
  exact ⟨f, by simp [findFilterHeader, he', hf]⟩

/-! ## Filters -/

theorem mem_foldl_putFilter : ∀ (fs : List FilterRecord) (s : Store) {x : FilterRecord},
    x ∈ (fs.foldl putFilter s).filters → x ∈ s.filters ∨ x ∈ fs
  | [], _, _, h => .inl h
  | f :: fs, s, x, h => by
    rcases mem_foldl_putFilter fs _ h with h | h
    · simp only [putFilter, List.mem_cons, List.mem_filter] at h
      rcases h with rfl | ⟨h, -⟩
      · exact .inr List.mem_cons_self
      · exact .inl h
    · exact .inr (List.mem_cons_of_mem _ h)

theorem nodup_foldl_putFilter : ∀ (fs : List FilterRecord) (s : Store),
    (s.filters.map (·.blockHash)).Nodup → ((fs.foldl putFilter s).filters.map (·.blockHash)).Nodup
  | [], _, h => h
  | f :: fs, _, h => nodup_foldl_putFilter fs _ (nodup_cons_filter_key (·.blockHash) h f)

theorem foldl_putFilter_frame : ∀ (fs : List FilterRecord) (s : Store),
    (fs.foldl putFilter s).headers = s.headers ∧
      (fs.foldl putFilter s).filterHeaders = s.filterHeaders ∧
      (fs.foldl putFilter s).filterHeaderHashes = s.filterHeaderHashes
  | [], _ => ⟨rfl, rfl, rfl⟩
  | f :: fs, s => foldl_putFilter_frame fs (s.putFilter f)

theorem createFilters_ok {fs : List FilterRecord} (h : s.createFilters fs = .ok s') :
    s' = fs.foldl putFilter s := by
  unfold createFilters at h
  split at h
  · cases h
  · cases h; rfl

theorem filterOf_of_mem (hs : (s.filters.map (·.blockHash)).Nodup) {f : FilterRecord}
    (hf : f ∈ s.filters) : s.filterOf f.blockHash = some f :=
  find?_key_of_mem FilterRecord.blockHash hs hf

end Store

end BitcoinLight
