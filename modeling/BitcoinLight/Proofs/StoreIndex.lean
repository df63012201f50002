import BitcoinLight.Proofs.StoreWrites

set_option autoImplicit false

/-!
# The height indexes of the store

Each kind of record has an index of `(height, key)` entries beside it, and filter headers one of
`(hash, block)` entries as well. An index agrees with its records (`IndexOf`) when it lists each
record once, under its own height and key, and nothing else. A look-up by height then finds the
records at that height, each once, and a look-up over a range of heights finds those in the
range, lowest first.

Writes keep the indexes in agreement as long as they keep each key at one height
(`StoreWrite.KeepsKeys`): the block index gains an entry only for a pair it lacks and never
loses one, and the filter indexes gain an entry on every write. So a block record written again
at another height leaves its old entry behind, and a batch of filter headers or filters that
names a block twice indexes it twice (`rewritten_height_leaves_stale_entry`).
-/

namespace BitcoinLight

/-- An index of `(label, key)` entries agrees with the records `rs`: each key is one record's,
and the index lists each record once, under its own label and key, and nothing else. -/
structure IndexOf {α β : Type} (key : α → Hash256) (label : α → β) (rs : List α)
    (index : List (β × Hash256)) : Prop where
  keys_nodup : (rs.map key).Nodup
  nodup : index.Nodup
  mem_iff : ∀ e, e ∈ index ↔ ∃ r ∈ rs, (label r, key r) = e

namespace IndexOf

variable {α β : Type} {key : α → Hash256} {label : α → β} {rs : List α}
  {index : List (β × Hash256)}

theorem nil : IndexOf key label [] [] := ⟨List.nodup_nil, List.nodup_nil, by simp⟩

theorem put [DecidableEq β] (h : IndexOf key label rs index) (x : α)
    (hx : ∀ y ∈ rs, key y = key x → label y = label x) :
    IndexOf key label (x :: rs.filter fun y => key y != key x)
      (if (label x, key x) ∈ index then index else index ++ [(label x, key x)]) := by
  have hmem : ∀ e, (∃ r ∈ x :: rs.filter (fun y => key y != key x), (label r, key r) = e) ↔
      e ∈ index ∨ e = (label x, key x) := by
    intro e
    simp only [List.mem_cons, List.mem_filter, bne_iff_ne, ne_eq, h.mem_iff]
    constructor
    · rintro ⟨r, rfl | ⟨hr, -⟩, rfl⟩
      · exact .inr rfl
      · exact .inl ⟨r, hr, rfl⟩
    · rintro (⟨r, hr, rfl⟩ | rfl)
      · by_cases hk : key r = key x
        · exact ⟨x, .inl rfl, by rw [hx r hr hk, hk]⟩
        · exact ⟨r, .inr ⟨hr, hk⟩, rfl⟩
      · exact ⟨x, .inl rfl, rfl⟩
  refine ⟨nodup_cons_filter_key key h.keys_nodup x, ?_, fun e => ?_⟩
  · split
    · exact h.nodup
    · rename_i hnot
      exact h.nodup.append (List.nodup_singleton _) (by simpa using hnot)
  · rw [hmem]
    split
    · rename_i hin
      constructor
      · exact .inl
      · rintro (he | rfl)
        · exact he
        · exact hin
    · simp

theorem append [DecidableEq β] (h : IndexOf key label rs index) (x : α)
    (hx : ∀ y ∈ rs, key y ≠ key x) :
    IndexOf key label (x :: rs.filter fun y => key y != key x) (index ++ [(label x, key x)]) := by
  have hnot : (label x, key x) ∉ index := fun hin => by
    obtain ⟨y, hy, hyx⟩ := (h.mem_iff _).mp hin
    exact hx y hy (congrArg Prod.snd hyx)
  simpa [hnot] using h.put x fun y hy hk => absurd hk (hx y hy)

theorem keys_nodup_index (h : IndexOf key label rs index) : (index.map Prod.snd).Nodup := by
  refine List.Nodup.map_on (fun e he e' he' hk => ?_) h.nodup
  obtain ⟨r, hr, rfl⟩ := (h.mem_iff e).mp he
  obtain ⟨r', hr', rfl⟩ := (h.mem_iff e').mp he'
  simp only at hk
  rw [List.inj_on_of_nodup_map h.keys_nodup hr hr' hk]

end IndexOf

/-! ## Look-ups through an index -/

section Lookup

variable {α : Type} {key : α → Hash256} {label : α → Nat} {rs : List α}
  {index : List (Nat × Hash256)}

theorem lookup_eq_some_iff (hk : (rs.map key).Nodup) {k : Hash256} {r : α} :
    rs.find? (fun y => key y == k) = some r ↔ r ∈ rs ∧ key r = k := by
  constructor
  · intro hf
    exact ⟨List.mem_of_find?_eq_some hf, by simpa using List.find?_some hf⟩
  · rintro ⟨hr, rfl⟩
    exact find?_key_of_mem key hk hr

theorem mem_filterMap_lookup (h : IndexOf key label rs index) {es : List (Nat × Hash256)}
    (hes : ∀ e ∈ es, e ∈ index) {r : α} :
    r ∈ (es.map Prod.snd).filterMap (fun k => rs.find? fun y => key y == k) ↔
      r ∈ rs ∧ (label r, key r) ∈ es := by
  simp only [List.filterMap_map, List.mem_filterMap, Function.comp_apply,
    lookup_eq_some_iff h.keys_nodup]
  constructor
  · rintro ⟨e, he, hr, hk⟩
    -- the entry is some record's, and that record has the key found, so it is `r`
    obtain ⟨r', hr', hr'e⟩ := (h.mem_iff e).mp (hes e he)
    have : r' = r := List.inj_on_of_nodup_map h.keys_nodup hr' hr (by rw [hk, ← hr'e])
    subst this
    exact ⟨hr, hr'e ▸ he⟩
  · rintro ⟨hr, he⟩
    exact ⟨_, he, hr, rfl⟩

theorem nodup_filterMap_lookup (hk : (rs.map key).Nodup) {ks : List Hash256} (hks : ks.Nodup) :
    (ks.filterMap fun k => rs.find? fun y => key y == k).Nodup := by
  refine hks.filterMap fun a a' r ha ha' => ?_
  rw [Option.mem_def, lookup_eq_some_iff hk] at ha ha'
  rw [← ha.2, ← ha'.2]

theorem mem_keysAt_lookup (h : IndexOf key label rs index) {height : Nat} {r : α} :
    r ∈ (Store.keysAt index height).filterMap (fun k => rs.find? fun y => key y == k) ↔
      r ∈ rs ∧ label r = height := by
  rw [Store.keysAt, mem_filterMap_lookup h fun e he => (List.mem_filter.mp he).1]
  constructor
  · rintro ⟨hr, he⟩
    exact ⟨hr, by simpa using (List.mem_filter.mp he).2⟩
  · rintro ⟨hr, rfl⟩
    exact ⟨hr, List.mem_filter.mpr ⟨(h.mem_iff _).mpr ⟨r, hr, rfl⟩, by simp⟩⟩

theorem nodup_keysAt_lookup (h : IndexOf key label rs index) (height : Nat) :
    ((Store.keysAt index height).filterMap fun k => rs.find? fun y => key y == k).Nodup :=
  nodup_filterMap_lookup h.keys_nodup (h.keys_nodup_index.sublist (List.filter_sublist.map _))

theorem keysBetween_eq (index : List (Nat × Hash256)) {lo hi : Nat} (hle : lo ≤ hi) :
    Store.keysBetween index lo hi =
      ((index.filter fun e => lo ≤ e.1 && e.1 ≤ hi).mergeSort fun a b => a.1 ≤ b.1).map (·.2) := by
  rw [Store.keysBetween, if_neg (by omega)]

theorem mem_keysBetween_lookup (h : IndexOf key label rs index) {lo hi : Nat} {r : α} :
    r ∈ (Store.keysBetween index lo hi).filterMap (fun k => rs.find? fun y => key y == k) ↔
      r ∈ rs ∧ lo ≤ label r ∧ label r ≤ hi := by
  by_cases hle : lo ≤ hi
  · rw [keysBetween_eq index hle, mem_filterMap_lookup h fun e he =>
      (List.mem_filter.mp ((List.mem_mergeSort).mp he)).1, List.mem_mergeSort, List.mem_filter]
    constructor
    · rintro ⟨hr, -, hb⟩
      exact ⟨hr, by simpa using hb⟩
    · rintro ⟨hr, hb⟩
      exact ⟨hr, (h.mem_iff _).mpr ⟨r, hr, rfl⟩, by simpa using hb⟩
  · rw [Store.keysBetween, if_pos (by omega)]
    simp only [List.filterMap_nil, List.not_mem_nil, false_iff, not_and]
    omega

theorem nodup_keysBetween_lookup (h : IndexOf key label rs index) (lo hi : Nat) :
    ((Store.keysBetween index lo hi).filterMap fun k => rs.find? fun y => key y == k).Nodup := by
  refine nodup_filterMap_lookup h.keys_nodup ?_
  unfold Store.keysBetween
  split
  · exact List.nodup_nil
  · exact (List.mergeSort_perm _ _).map _ |>.nodup_iff.mpr
      (h.keys_nodup_index.sublist (List.filter_sublist.map _))

theorem sorted_keysBetween_lookup (h : IndexOf key label rs index) (lo hi : Nat) :
    ((Store.keysBetween index lo hi).filterMap fun k => rs.find? fun y => key y == k).Pairwise
      fun a b => label a ≤ label b := by
  unfold Store.keysBetween
  split
  · exact List.Pairwise.nil
  rw [List.filterMap_map]
  -- a record found by an entry's key is at the entry's height
  have hlabel : ∀ e ∈ index, ∀ r ∈ rs.find? (fun y => key y == e.2), label r = e.1 := by
    intro e he r hr
    rw [Option.mem_def, lookup_eq_some_iff h.keys_nodup] at hr
    obtain ⟨r', hr', rfl⟩ := (h.mem_iff e).mp he
    rw [List.inj_on_of_nodup_map h.keys_nodup hr.1 hr' hr.2]
  have hsorted : (((index.filter fun e => lo ≤ e.1 && e.1 ≤ hi).mergeSort fun a b => a.1 ≤ b.1)).Pairwise
      fun a b => decide (a.1 ≤ b.1) = true := List.pairwise_mergeSort
    (by intro a b c hab hbc; simp only [decide_eq_true_eq] at *; omega)
    (by intro a b; simp only [Bool.or_eq_true, decide_eq_true_eq]; omega) _
  refine List.Pairwise.filterMap (R := fun a b => a ∈ index ∧ b ∈ index ∧ a.1 ≤ b.1) _
    (fun a b hab r hr r' hr' => ?_) (hsorted.imp_of_mem fun {a b} ha hb hab => ?_)
  · rw [hlabel a hab.1 r hr, hlabel b hab.2.1 r' hr']
    exact hab.2.2
  · simp only [List.mem_mergeSort, List.mem_filter] at ha hb
    exact ⟨ha.1, hb.1, by simpa using hab⟩

end Lookup

/-! ## The store's indexes -/

namespace Store

/-- Every index of the store agrees with its records: blocks by height, filter headers by
height and by hash, filters by height. -/
structure IndexAgrees (s : Store) : Prop where
  headers : IndexOf BlockRecord.hash BlockRecord.height s.headers s.headerIndex
  filterHeaders :
    IndexOf FilterHeaderRecord.blockHash FilterHeaderRecord.height s.filterHeaders s.filterHeaderIndex
  filterHeaderHashes :
    IndexOf FilterHeaderRecord.blockHash FilterHeaderRecord.hash s.filterHeaders s.filterHeaderHashes
  filters : IndexOf FilterRecord.blockHash FilterRecord.height s.filters s.filterIndex

namespace IndexAgrees

variable {s : Store}

theorem empty : Store.empty.IndexAgrees := ⟨.nil, .nil, .nil, .nil⟩

theorem putHeader (h : s.IndexAgrees) (r : BlockRecord)
    (hr : ∀ y ∈ s.headers, y.hash = r.hash → y.height = r.height) : (s.putHeader r).IndexAgrees := by
  refine ⟨?_, h.filterHeaders, h.filterHeaderHashes, h.filters⟩
  have hi : (s.putHeader r).headerIndex = if (r.height, r.hash) ∈ s.headerIndex then s.headerIndex
      else s.headerIndex ++ [(r.height, r.hash)] := by
    simp only [Store.putHeader, List.contains_iff_mem]
  rw [hi, putHeader_headers]
  exact h.headers.put r hr

theorem putFilterHeader (h : s.IndexAgrees) (f : FilterHeaderRecord)
    (hf : ∀ g ∈ s.filterHeaders, g.blockHash ≠ f.blockHash) : (s.putFilterHeader f).IndexAgrees :=
  ⟨h.headers, h.filterHeaders.append f hf, h.filterHeaderHashes.append f hf, h.filters⟩

theorem putFilter (h : s.IndexAgrees) (f : FilterRecord)
    (hf : ∀ g ∈ s.filters, g.blockHash ≠ f.blockHash) : (s.putFilter f).IndexAgrees :=
  ⟨h.headers, h.filterHeaders, h.filterHeaderHashes, h.filters.append f hf⟩

theorem foldl_putHeader : ∀ (rs : List BlockRecord) (s : Store), s.IndexAgrees →
    (∀ r ∈ rs, ∀ y ∈ s.headers ++ rs, y.hash = r.hash → y.height = r.height) →
    (rs.foldl Store.putHeader s).IndexAgrees
  | [], _, h, _ => h
  | r :: rs, s, h, hk => by
    refine foldl_putHeader rs _ (h.putHeader r fun y hy => hk r List.mem_cons_self y (by simp [hy]))
      fun r' hr' y hy hyr => hk r' (List.mem_cons_of_mem _ hr') y ?_ hyr
    -- what is stored now was stored before or is the record just written
    rcases List.mem_append.mp hy with hy | hy
    · rcases (Store.mem_putHeader (s := s)).mp hy with rfl | ⟨hy, -⟩
      · simp
      · simp [hy]
    · simp [hy]

theorem foldl_putFilterHeader : ∀ (fs : List FilterHeaderRecord) (s : Store), s.IndexAgrees →
    (fs.map (·.blockHash)).Nodup → (∀ f ∈ fs, ∀ g ∈ s.filterHeaders, g.blockHash ≠ f.blockHash) →
    (fs.foldl Store.putFilterHeader s).IndexAgrees
  | [], _, h, _, _ => h
  | f :: fs, s, h, hnd, hnew => by
    rw [List.map_cons, List.nodup_cons] at hnd
    refine foldl_putFilterHeader fs _ (h.putFilterHeader f (hnew f List.mem_cons_self)) hnd.2
      fun f' hf' g hg => ?_
    rcases (Store.mem_putFilterHeader (s := s)).mp hg with rfl | ⟨hg, -⟩
    · exact fun he => hnd.1 (he ▸ List.mem_map_of_mem hf')
    · exact hnew f' (List.mem_cons_of_mem _ hf') g hg

theorem foldl_putFilter : ∀ (fs : List FilterRecord) (s : Store), s.IndexAgrees →
    (fs.map (·.blockHash)).Nodup → (∀ f ∈ fs, ∀ g ∈ s.filters, g.blockHash ≠ f.blockHash) →
    (fs.foldl Store.putFilter s).IndexAgrees
  | [], _, h, _, _ => h
  | f :: fs, s, h, hnd, hnew => by
    rw [List.map_cons, List.nodup_cons] at hnd
    refine foldl_putFilter fs _ (h.putFilter f (hnew f List.mem_cons_self)) hnd.2
      fun f' hf' g hg => ?_
    simp only [Store.putFilter, List.mem_cons, List.mem_filter, bne_iff_ne, ne_eq] at hg
    rcases hg with rfl | ⟨hg, -⟩
    · exact fun he => hnd.1 (he ▸ List.mem_map_of_mem hf')
    · exact hnew f' (List.mem_cons_of_mem _ hf') g hg

/-! ### What the look-ups find -/

theorem mem_atHeight (h : s.IndexAgrees) {height : Nat} {r : BlockRecord} :
    r ∈ s.atHeight height ↔ r ∈ s.headers ∧ r.height = height :=
  mem_keysAt_lookup h.headers

theorem nodup_atHeight (h : s.IndexAgrees) (height : Nat) : (s.atHeight height).Nodup :=
  nodup_keysAt_lookup h.headers height

theorem mem_betweenHeights (h : s.IndexAgrees) {lo hi : Nat} {r : BlockRecord} :
    r ∈ s.betweenHeights lo hi ↔ r ∈ s.headers ∧ lo ≤ r.height ∧ r.height ≤ hi :=
  mem_keysBetween_lookup h.headers

theorem nodup_betweenHeights (h : s.IndexAgrees) (lo hi : Nat) : (s.betweenHeights lo hi).Nodup :=
  nodup_keysBetween_lookup h.headers lo hi

theorem sorted_betweenHeights (h : s.IndexAgrees) (lo hi : Nat) :
    (s.betweenHeights lo hi).Pairwise fun a b => a.height ≤ b.height :=
  sorted_keysBetween_lookup h.headers lo hi

theorem mem_filterHeadersAtHeight (h : s.IndexAgrees) {height : Nat} {f : FilterHeaderRecord} :
    f ∈ s.filterHeadersAtHeight height ↔ f ∈ s.filterHeaders ∧ f.height = height :=
  mem_keysAt_lookup h.filterHeaders

theorem nodup_filterHeadersAtHeight (h : s.IndexAgrees) (height : Nat) :
    (s.filterHeadersAtHeight height).Nodup :=
  nodup_keysAt_lookup h.filterHeaders height

theorem mem_filtersAtHeight (h : s.IndexAgrees) {height : Nat} {f : FilterRecord} :
    f ∈ s.filtersAtHeight height ↔ f ∈ s.filters ∧ f.height = height :=
  mem_keysAt_lookup h.filters

theorem nodup_filtersAtHeight (h : s.IndexAgrees) (height : Nat) : (s.filtersAtHeight height).Nodup :=
  nodup_keysAt_lookup h.filters height

theorem mem_filtersBetweenHeights (h : s.IndexAgrees) {lo hi : Nat} {f : FilterRecord} :
    f ∈ s.filtersBetweenHeights lo hi ↔ f ∈ s.filters ∧ lo ≤ f.height ∧ f.height ≤ hi :=
  mem_keysBetween_lookup h.filters

theorem nodup_filtersBetweenHeights (h : s.IndexAgrees) (lo hi : Nat) :
    (s.filtersBetweenHeights lo hi).Nodup :=
  nodup_keysBetween_lookup h.filters lo hi

theorem findFilterHeader_hash (h : s.IndexAgrees) {x : Hash256} {f : FilterHeaderRecord}
    (hf : s.findFilterHeader x = some f) : f ∈ s.filterHeaders ∧ f.hash = x := by
  obtain ⟨e, he, rfl, hfe⟩ := findFilterHeader_spec hf
  obtain ⟨g, hg, hge⟩ := (h.filterHeaderHashes.mem_iff e).mp he
  obtain ⟨hfm, hfb⟩ := filterHeaderOf_spec hfe
  have : g = f := List.inj_on_of_nodup_map h.filterHeaders.keys_nodup hg hfm (by rw [hfb, ← hge])
  subst this
  exact ⟨hfm, by rw [← hge]⟩

end IndexAgrees

end Store

/-! ## Runs of writes -/

/-- A write to the store. -/
inductive StoreWrite where
  | createAll (rs : List BlockRecord)
  | upsertAll (rs : List BlockRecord)
  | createFilterHeaders (fs : List FilterHeaderRecord)
  | createFilters (fs : List FilterRecord)
  | setSyncing (value : Bool)
  | setIbd (value : Bool)

namespace StoreWrite

def apply : StoreWrite → Store → Except String Store
  | createAll rs, s => s.createAll rs
  | upsertAll rs, s => .ok (s.upsertAll rs)
  | createFilterHeaders fs, s => s.createFilterHeaders fs
  | createFilters fs, s => s.createFilters fs
  | setSyncing value, s => .ok (s.setSyncing value).2
  | setIbd value, s => .ok (s.setIbd value).2

/-- The write keeps every key at one height: a block record written again, or twice in one
batch, keeps its height, and a batch of filter headers or filters names each block once. -/
def KeepsKeys : StoreWrite → Store → Prop
  | createAll rs, s | upsertAll rs, s =>
    ∀ r ∈ rs, ∀ y ∈ s.headers ++ rs, y.hash = r.hash → y.height = r.height
  | createFilterHeaders fs, _ => (fs.map (·.blockHash)).Nodup
  | createFilters fs, _ => (fs.map (·.blockHash)).Nodup
  | setSyncing _, _ | setIbd _, _ => True

instance (w : StoreWrite) (s : Store) : Decidable (w.KeepsKeys s) :=
  match w with
  | createAll rs | upsertAll rs => inferInstanceAs
    (Decidable (∀ r ∈ rs, ∀ y ∈ s.headers ++ rs, y.hash = r.hash → y.height = r.height))
  | createFilterHeaders fs => inferInstanceAs (Decidable (fs.map (·.blockHash)).Nodup)
  | createFilters fs => inferInstanceAs (Decidable (fs.map (·.blockHash)).Nodup)
  | setSyncing _ | setIbd _ => instDecidableTrue

def offered : StoreWrite → List BlockRecord
  | createAll rs | upsertAll rs => rs
  | _ => []

end StoreWrite

namespace Store

def applyWrite (s : Store) (w : StoreWrite) : Store :=
  match w.apply s with
  | .ok s' => s'
  | .error _ => s

def runWrites (s : Store) (ws : List StoreWrite) : Store := ws.foldl applyWrite s

theorem applyWrite_of_error {s : Store} {w : StoreWrite} {m : String} (h : w.apply s = .error m) :
    s.applyWrite w = s := by
  simp [applyWrite, h]

theorem createFilters_new {s s' : Store} {fs : List FilterRecord} (h : s.createFilters fs = .ok s') :
    ∀ f ∈ fs, ∀ g ∈ s.filters, g.blockHash ≠ f.blockHash := by
  unfold createFilters at h
  split at h
  · cases h
  · rename_i hnone
    intro f hf g hg hgf
    have := List.find?_eq_none.mp hnone f hf
    simp only [filterOf, Option.isSome_iff_ne_none, ne_eq, Decidable.not_not,
      List.find?_eq_none, beq_iff_eq] at this
    exact this g hg hgf

namespace IndexAgrees

variable {s : Store}

theorem applyWrite (h : s.IndexAgrees) {w : StoreWrite} (hw : w.KeepsKeys s) :
    (s.applyWrite w).IndexAgrees := by
  unfold Store.applyWrite
  split
  · rename_i s' hs'
    cases w with
    | createAll rs =>
      obtain ⟨rfl, -⟩ := createAll_ok hs'
      exact foldl_putHeader rs s h hw
    | upsertAll rs =>
      cases hs'
      exact foldl_putHeader rs s h hw
    | createFilterHeaders fs =>
      obtain ⟨rfl, hnew⟩ := createFilterHeaders_ok hs'
      exact foldl_putFilterHeader fs s h hw fun f hf => filterHeaderOf_eq_none (hnew f hf)
    | createFilters fs =>
      have hnew := createFilters_new hs'
      rw [createFilters_ok hs']
      exact foldl_putFilter fs s h hw hnew
    | setSyncing value | setIbd value =>
      cases hs'
      exact ⟨h.headers, h.filterHeaders, h.filterHeaderHashes, h.filters⟩
  · exact h

theorem runWrites : ∀ (ws : List StoreWrite) (s : Store), s.IndexAgrees →
    (∀ k (hk : k < ws.length), ws[k].KeepsKeys (s.runWrites (ws.take k))) →
    (s.runWrites ws).IndexAgrees
  | [], _, h, _ => h
  | w :: ws, s, h, hk =>
    runWrites ws (s.applyWrite w) (h.applyWrite (hk 0 (by simp)))
      fun k hk' => by
        have := hk (k + 1) (by simp only [List.length_cons]; omega)
        simpa only [List.getElem_cons_succ, Store.runWrites, List.take_succ_cons, List.foldl_cons]
          using this

end IndexAgrees

theorem runWrites_take_succ (s : Store) {ws : List StoreWrite} {k : Nat} (hk : k < ws.length) :
    s.runWrites (ws.take (k + 1)) = (s.runWrites (ws.take k)).applyWrite ws[k] := by
  rw [runWrites, runWrites, List.take_add_one, List.getElem?_eq_getElem hk, List.foldl_append]
  rfl

/-! ## Keys checked on the writes alone -/

theorem mem_foldl_putHeader : ∀ (rs : List BlockRecord) (s : Store) {x : BlockRecord},
    x ∈ (rs.foldl putHeader s).headers → x ∈ s.headers ∨ x ∈ rs
  | [], _, _, hx => .inl hx
  | r :: rs, s, x, hx => by
    rcases mem_foldl_putHeader rs (s.putHeader r) hx with hx | hx
    · rcases mem_putHeader.mp hx with rfl | ⟨hx, -⟩
      · exact .inr List.mem_cons_self
      · exact .inl hx
    · exact .inr (List.mem_cons_of_mem _ hx)

theorem mem_applyWrite {s : Store} {w : StoreWrite} {x : BlockRecord}
    (hx : x ∈ (s.applyWrite w).headers) : x ∈ s.headers ∨ x ∈ w.offered := by
  unfold applyWrite at hx
  split at hx
  · rename_i s' hs'
    cases w with
    | createAll rs =>
      obtain ⟨rfl, -⟩ := createAll_ok hs'
      exact mem_foldl_putHeader rs s hx
    | upsertAll rs =>
      cases hs'
      exact mem_foldl_putHeader rs s hx
    | createFilterHeaders fs =>
      obtain ⟨rfl, -⟩ := createFilterHeaders_ok hs'
      exact .inl ((foldl_putFilterHeader_frame fs s).1 ▸ hx)
    | createFilters fs =>
      rw [createFilters_ok hs'] at hx
      exact .inl ((foldl_putFilter_frame fs s).1 ▸ hx)
    | setSyncing value | setIbd value =>
      cases hs'
      exact .inl hx
  · exact .inl hx

theorem mem_runWrites : ∀ (ws : List StoreWrite) (s : Store) {x : BlockRecord},
    x ∈ (s.runWrites ws).headers → x ∈ s.headers ∨ ∃ w ∈ ws, x ∈ w.offered
  | [], _, _, hx => .inl hx
  | w :: ws, s, x, hx => by
    rcases mem_runWrites ws (s.applyWrite w) hx with hx | ⟨w', hw', hx⟩
    · rcases mem_applyWrite hx with hx | hx
      · exact .inl hx
      · exact .inr ⟨w, List.mem_cons_self, hx⟩
    · exact .inr ⟨w', List.mem_cons_of_mem _ hw', hx⟩

/-- Writes from the empty store keep every key at one height wherever they are applied when the
records they offer give each hash one height and each batch of filter headers or filters names
each block once: what a write meets in the store was offered by an earlier write. -/
theorem keepsKeys_of_offered (ws : List StoreWrite)
    (hh : ∀ w ∈ ws, ∀ w' ∈ ws, ∀ r ∈ w.offered, ∀ y ∈ w'.offered, y.hash = r.hash →
      y.height = r.height)
    (hf : ∀ w ∈ ws, w.offered = [] → w.KeepsKeys Store.empty) :
    ∀ k (hk : k < ws.length), ws[k].KeepsKeys (Store.empty.runWrites (ws.take k)) := by
  intro k hk
  have hw : ws[k] ∈ ws := List.getElem_mem hk
  -- a record met in the store came from a write before the k-th
  have hmet : ∀ y ∈ (Store.empty.runWrites (ws.take k)).headers, ∃ w ∈ ws, y ∈ w.offered := by
    intro y hy
    rcases mem_runWrites _ _ hy with hy | ⟨w, hw, hy⟩
    · exact absurd hy List.not_mem_nil
    · exact ⟨w, List.mem_of_mem_take hw, hy⟩
  cases hwk : ws[k] with
  | createAll rs | upsertAll rs =>
    have hr : ∀ r ∈ rs, r ∈ ws[k].offered := fun r hr => by rw [hwk]; exact hr
    intro r hrs y hy hyr
    rcases List.mem_append.mp hy with hy | hy
    · obtain ⟨w', hw', hy'⟩ := hmet y hy
      exact hh _ hw w' hw' r (hr r hrs) y hy' hyr
    · exact hh _ hw _ hw r (hr r hrs) y (hr y hy) hyr
  | createFilterHeaders fs | createFilters fs | setSyncing value | setIbd value =>
    have := hf _ hw (by rw [hwk]; rfl)
    rw [hwk] at this
    exact this

end Store

/-- Every run of writes from the empty store that keeps each key at one height keeps every index
in agreement with its records, each entry once; the look-ups at a height and over a range of
heights then find exactly the records asked for, each once; and a write that fails leaves the
store as it was. -/
theorem store_indexes_agree (ws : List StoreWrite)
    (hk : ∀ k (hk : k < ws.length), ws[k].KeepsKeys (Store.empty.runWrites (ws.take k))) :
    let s := Store.empty.runWrites ws
    s.IndexAgrees ∧
    (∀ height r, r ∈ s.atHeight height ↔ r ∈ s.headers ∧ r.height = height) ∧
    (∀ height, (s.atHeight height).Nodup) ∧
    (∀ lo hi r, r ∈ s.betweenHeights lo hi ↔ r ∈ s.headers ∧ lo ≤ r.height ∧ r.height ≤ hi) ∧
    (∀ lo hi, (s.betweenHeights lo hi).Nodup) ∧
    (∀ lo hi f, f ∈ s.filtersBetweenHeights lo hi ↔ f ∈ s.filters ∧ lo ≤ f.height ∧ f.height ≤ hi) ∧
    (∀ lo hi, (s.filtersBetweenHeights lo hi).Nodup) ∧
    ∀ k (hk : k < ws.length) m, ws[k].apply (Store.empty.runWrites (ws.take k)) = .error m →
      Store.empty.runWrites (ws.take (k + 1)) = Store.empty.runWrites (ws.take k) := by
  intro s
  have h : s.IndexAgrees := Store.IndexAgrees.runWrites ws _ Store.IndexAgrees.empty hk
  refine ⟨h, fun _ _ => h.mem_atHeight, h.nodup_atHeight, fun _ _ _ => h.mem_betweenHeights,
    h.nodup_betweenHeights, fun _ _ _ => h.mem_filtersBetweenHeights, h.nodup_filtersBetweenHeights,
    fun k hk m hm => ?_⟩
  rw [Store.runWrites_take_succ _ hk, Store.applyWrite_of_error hm]

/-! ## A record written again at another height -/

def loneHeader : Header := ⟨1, Hash256.zero, Hash256.zero, 0, 0x207fffff, 0⟩

/-- A record written at height 5 and again at height 7 keeps its entry at 5: the look-up at
height 5 finds it at height 7, and the look-up from 5 to 7 finds it twice. -/
theorem rewritten_height_leaves_stale_entry :
    let s := (Store.empty.upsertAll [BlockRecord.new loneHeader 5 1]).upsertAll
      [BlockRecord.new loneHeader 7 1]
    s.atHeight 5 = [BlockRecord.new loneHeader 7 1] ∧
      s.betweenHeights 5 7 = [BlockRecord.new loneHeader 7 1, BlockRecord.new loneHeader 7 1] := by
  intro s
  -- both writes carry the same hash, so no hash is computed: the second replaces the record and
  -- adds an entry, since its height differs
  have hidx : s.headerIndex = [(5, loneHeader.hash), (7, loneHeader.hash)] := by
    simp [s, Store.upsertAll, Store.putHeader, Store.empty, BlockRecord.new]
  have hrec : s.headers = [BlockRecord.new loneHeader 7 1] := by
    simp [s, Store.upsertAll, Store.putHeader, Store.empty, BlockRecord.new]
  refine ⟨by simp [Store.atHeight, Store.keysAt, Store.findByHash, hidx, hrec, BlockRecord.new], ?_⟩
  -- the two entries are in order already, so sorting them changes nothing
  rw [Store.betweenHeights, keysBetween_eq _ (by omega), hidx, List.mergeSort_of_pairwise (by decide)]
  simp [Store.findByHash, hrec, BlockRecord.new]

end BitcoinLight
