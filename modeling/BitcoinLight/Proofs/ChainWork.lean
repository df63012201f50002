import BitcoinLight.Proofs.StoreIndex
import BitcoinLight.Proofs.Requests

set_option autoImplicit false

/-!
# Recalculating chain work

Recalculation walks the heights from the lowest one holding a record of no work, a batch of
heights at a time. Each record's work is its parent's plus its own proof, its own proof alone at
height zero, and the parent is taken from the entries the walk carries: the records one height
below the batch, and those of the batch already done. Between batches only the entries at the
batch's last height are kept.

On a store of the shape the header store keeps (`Store.WorkShape`: the block index agrees with
the records, every record above height zero has its parent one height down, heights fit in 32
bits) the batched walk gives the store recalculated in one pass (`Store.recomputed`), whatever
the batch size: a batch read lowest height first meets every parent before its children, and the
entries carried over are exactly the records at the height below the next batch. The one-pass
store satisfies the work equation from the lowest height up and leaves every lower record as it
was, so a second walk finds nothing to change.

Records are compared as a map from hash to record (`Store.Same`): the same records in any
order, and all else equal.

Where the index names a record at a height it no longer has, the walk reads it in the wrong
batch, and a record below the lowest height is recalculated
(`stale_entry_reworks_lower_record`).
-/

namespace BitcoinLight

namespace Store

/-- Two stores hold the same data: the same block records in any order, and all else equal. -/
structure Same (s t : Store) : Prop where
  perm : s.headers.Perm t.headers
  rest : { s with headers := [] } = { t with headers := [] }

theorem Same.refl (s : Store) : s.Same s := ⟨List.Perm.refl _, rfl⟩

theorem Same.symm {s t : Store} (h : s.Same t) : t.Same s := ⟨h.perm.symm, h.rest.symm⟩

theorem Same.trans {s t u : Store} (h : s.Same t) (h' : t.Same u) : s.Same u :=
  ⟨h.perm.trans h'.perm, h.rest.trans h'.rest⟩

/-- The shape recalculation relies on, which the header store keeps: the block index agrees with
the records, every record above height zero has its parent stored one height down, and heights
fit in 32 bits. Works are arbitrary. -/
structure WorkShape (s : Store) : Prop where
  index : IndexOf BlockRecord.hash BlockRecord.height s.headers s.headerIndex
  parent : ∀ r ∈ s.headers, r.height ≠ 0 →
    ∃ p ∈ s.headers, p.hash = r.prevHash ∧ p.height + 1 = r.height
  height_lt : ∀ r ∈ s.headers, r.height < 2 ^ 32

/-- Every record from height `L` up has its parent's work plus its own proof, or its own proof
alone at height zero. -/
def WorkFrom (s : Store) (L : Nat) : Prop :=
  ∀ r ∈ s.headers, L ≤ r.height →
    (r.height = 0 ∧ r.work = Work.blockProof r.bits) ∨
      ∃ p ∈ s.headers, p.hash = r.prevHash ∧ p.height + 1 = r.height ∧
        r.work = Work.addWork p.work (Work.blockProof r.bits)

/-- The work of `r` once chain work is recalculated in `s` from height `L` up: below `L` its stored
work; at height zero its own proof; above, its own proof added to the recalculated work of its
stored parent. -/
def recomputedWork (s : Store) (L : Nat) (r : BlockRecord) : Nat :=
  if r.height < L then r.work
  else if r.height = 0 then Work.blockProof r.bits
  else
    match s.findByHash r.prevHash with
    | some p =>
      if _ : p.height < r.height then Work.addWork (s.recomputedWork L p) (Work.blockProof r.bits)
      else r.work
    | none => r.work
termination_by r.height

def recomputed (s : Store) (L : Nat) : Store :=
  { s with headers := s.headers.map fun r => r.withWork (s.recomputedWork L r) }

def reworkEntry (s : Store) (L : Nat) (r : BlockRecord) : Hash256 × Nat × Nat :=
  (r.hash, r.height, s.recomputedWork L r)

variable {s t : Store} {L : Nat}

/-! ## The recalculated work -/

theorem recomputedWork_of_lt {r : BlockRecord} (h : r.height < L) : s.recomputedWork L r = r.work := by
  rw [recomputedWork, if_pos h]

theorem recomputedWork_zero {r : BlockRecord} (hL : L ≤ r.height) (h0 : r.height = 0) :
    s.recomputedWork L r = Work.blockProof r.bits := by
  rw [recomputedWork, if_neg (by omega), if_pos h0]

theorem recomputedWork_of_parent (hs : (s.headers.map (·.hash)).Nodup) {r p : BlockRecord}
    (hL : L ≤ r.height) (hp : p ∈ s.headers) (hph : p.hash = r.prevHash)
    (hh : p.height + 1 = r.height) :
    s.recomputedWork L r = Work.addWork (s.recomputedWork L p) (Work.blockProof r.bits) := by
  rw [recomputedWork, if_neg (by omega), if_neg (by omega), ← hph, findByHash_of_mem hs hp]
  simp only [dif_pos (show p.height < r.height by omega)]

theorem mem_recomputed {r : BlockRecord} :
    r ∈ (s.recomputed L).headers ↔ ∃ r0 ∈ s.headers, r = r0.withWork (s.recomputedWork L r0) := by
  simp only [recomputed, List.mem_map]
  exact ⟨fun ⟨r0, h0, he⟩ => ⟨r0, h0, he.symm⟩, fun ⟨r0, h0, he⟩ => ⟨r0, h0, he.symm⟩⟩

/-! ## Writing records back -/

theorem mem_upsertAll {xs : List BlockRecord} (hxs : (xs.map (·.hash)).Nodup) {y : BlockRecord} :
    y ∈ (s.upsertAll xs).headers ↔ y ∈ xs ∨ y ∈ s.headers ∧ y.hash ∉ xs.map (·.hash) := by
  induction xs generalizing s with
  | nil => simp [upsertAll]
  | cons x xs ih =>
    rw [List.map_cons, List.nodup_cons] at hxs
    rw [upsertAll, List.foldl_cons, ← upsertAll, ih hxs.2, mem_putHeader]
    simp only [List.mem_cons, List.map_cons]
    constructor
    · rintro (hy | ⟨rfl | ⟨hy, hne⟩, hn⟩)
      · exact .inl (.inr hy)
      · exact .inl (.inl rfl)
      · exact .inr ⟨hy, fun h => h.elim hne hn⟩
    · rintro ((rfl | hy) | ⟨hy, hn⟩)
      · exact .inr ⟨.inl rfl, hxs.1⟩
      · exact .inl hy
      · exact .inr ⟨.inr ⟨hy, fun h => hn (.inl h)⟩, fun h => hn (.inr h)⟩

theorem upsertAll_rest {xs : List BlockRecord}
    (h : ∀ x ∈ xs, (x.height, x.hash) ∈ s.headerIndex) :
    { s.upsertAll xs with headers := [] } = { s with headers := [] } := by
  induction xs generalizing s with
  | nil => rfl
  | cons x xs ih =>
    have hx : { s.putHeader x with headers := [] } = { s with headers := [] } := by
      simp [putHeader, h x List.mem_cons_self]
    have hidx : (s.putHeader x).headerIndex = s.headerIndex := congrArg (·.headerIndex) hx
    rw [upsertAll, List.foldl_cons, ← upsertAll, ih (fun y hy => hidx ▸ h y (.tail _ hy)), hx]

/-! ## One batch -/

theorem hash_ne_of_ne (hs : (s.headers.map (·.hash)).Nodup) {q r : BlockRecord}
    (hq : q ∈ s.headers) (hr : r ∈ s.headers) (hne : q ≠ r) : q.hash ≠ r.hash :=
  fun h => hne (List.inj_on_of_nodup_map hs hq hr h)

theorem entries_keys_nodup (hs : (s.headers.map (·.hash)).Nodup) {rs : List BlockRecord}
    {P : List (Hash256 × Nat × Nat)} (hrs : ∀ r ∈ rs, r ∈ s.headers) (hnd : rs.Nodup)
    (hP : ∀ x ∈ P, ∃ q ∈ s.headers, q ∉ rs ∧ x = s.reworkEntry L q) (hPk : (P.map (·.1)).Nodup) :
    ((rs.reverse.map (s.reworkEntry L) ++ P).map (·.1)).Nodup := by
  have hkeys : (rs.reverse.map (s.reworkEntry L)).map (·.1) = rs.reverse.map (·.hash) := by
    simp [reworkEntry, Function.comp_def]
  rw [List.map_append, hkeys, List.nodup_append]
  refine ⟨(List.nodup_reverse.mpr hnd).map_on fun q hq r hr h =>
    List.inj_on_of_nodup_map hs (hrs q (List.mem_reverse.mp hq)) (hrs r (List.mem_reverse.mp hr)) h,
    hPk, ?_⟩
  intro a ha b hb hab
  obtain ⟨q, hq, rfl⟩ := List.mem_map.mp ha
  obtain ⟨x, hx, rfl⟩ := List.mem_map.mp hb
  obtain ⟨q', hq', hq'rs, rfl⟩ := hP x hx
  have hqrs := List.mem_reverse.mp hq
  exact hash_ne_of_ne hs (hrs q hqrs) hq' (fun h => hq'rs (h ▸ hqrs)) hab

/-- One batch read lowest height first, whose records have their parents among the entries
`P` or earlier in the batch, gets every record's recalculated work, and passes on its records'
entries, last read first, before `P`. -/
theorem rework_eq (hs : (s.headers.map (·.hash)).Nodup) {P : List (Hash256 × Nat × Nat)} :
    ∀ {rs : List BlockRecord}, (∀ r ∈ rs, r ∈ s.headers ∧ L ≤ r.height) → rs.Nodup →
      rs.Pairwise (fun a b => a.height ≤ b.height) →
      (∀ x ∈ P, ∃ q ∈ s.headers, q ∉ rs ∧ x = s.reworkEntry L q) → (P.map (·.1)).Nodup →
      (∀ r ∈ rs, r.height ≠ 0 → ∃ p ∈ s.headers, p.hash = r.prevHash ∧
        p.height + 1 = r.height ∧ (s.reworkEntry L p ∈ P ∨ p ∈ rs)) →
      rework P rs = (rs.map fun r => r.withWork (s.recomputedWork L r),
        rs.reverse.map (s.reworkEntry L) ++ P) := by
  intro rs
  -- the batch is read from its first record on, so it grows at the end
  induction rs using List.reverseRecOn with
  | nil => intros; rfl
  | append_singleton rs r ih =>
    intro hrs hnd hsorted hP hPk hpar
    have hrnot : r ∉ rs := fun h => (List.nodup_append.mp hnd).2.2 r h r List.mem_cons_self rfl
    have hsorted' := List.pairwise_append.mp hsorted
    have hr := hrs r (by simp)
    -- the entries given come from records outside the batch, so outside its first part
    have hPrs : ∀ x ∈ P, ∃ q ∈ s.headers, q ∉ rs ∧ x = s.reworkEntry L q := fun x hx => by
      obtain ⟨q, hq, hqn, rfl⟩ := hP x hx
      exact ⟨q, hq, fun h => hqn (by simp [h]), rfl⟩
    have ih' := ih (fun q hq => hrs q (by simp [hq])) (hnd.sublist (List.sublist_append_left _ _))
      hsorted'.1 hPrs hPk
      (fun a ha h0 => by
        obtain ⟨p, hp, hph, hh, hpin⟩ := hpar a (by simp [ha]) h0
        refine ⟨p, hp, hph, hh, hpin.imp_right fun hpin => ?_⟩
        -- a parent is one height down, so it is not the record read after `a`
        rcases List.mem_append.mp hpin with hpin | hpin
        · exact hpin
        · have := hsorted'.2.2 a ha p hpin
          omega)
    have hkeys := entries_keys_nodup hs (fun q hq => (hrs q (by simp [hq])).1)
      (hnd.sublist (List.sublist_append_left _ _)) hPrs hPk
    -- no entry passed on so far has `r`'s hash
    have hfilter : (rs.reverse.map (s.reworkEntry L) ++ P).filter (·.1 != r.hash) =
        rs.reverse.map (s.reworkEntry L) ++ P := by
      refine List.filter_eq_self.mpr fun x hx => ?_
      simp only [bne_iff_ne, ne_eq]
      rcases List.mem_append.mp hx with hx | hx
      · obtain ⟨q, hq, rfl⟩ := List.mem_map.mp hx
        have hq := List.mem_reverse.mp hq
        exact hash_ne_of_ne hs (hrs q (by simp [hq])).1 hr.1 (fun h => hrnot (h ▸ hq))
      · obtain ⟨q, hq, hqn, rfl⟩ := hP x hx
        exact hash_ne_of_ne hs hq hr.1 (fun h => hqn (by simp [h]))
    simp only [rework, List.foldl_append, List.foldl_cons, List.foldl_nil] at ih' ⊢
    rw [ih']
    by_cases h0 : r.height = 0
    · simp only [h0, ↓reduceIte, hfilter, List.map_append, List.map_cons, List.map_nil,
        List.reverse_append, List.reverse_cons, List.reverse_nil, List.nil_append,
        List.cons_append, recomputedWork_zero (s := s) (L := L) (r := r) hr.2 h0, reworkEntry]
    · obtain ⟨p, hp, hph, hh, hpin⟩ := hpar r (by simp) h0
      have hpr : s.reworkEntry L p ∈ rs.reverse.map (s.reworkEntry L) ++ P := by
        rcases hpin with hpin | hpin
        · exact List.mem_append_right _ hpin
        · rcases List.mem_append.mp hpin with hpin | hpin
          · exact List.mem_append_left _ (List.mem_map_of_mem (List.mem_reverse.mpr hpin))
          · rw [List.mem_singleton] at hpin
            subst hpin
            omega
      have hfind : (rs.reverse.map (s.reworkEntry L) ++ P).find? (·.1 == r.prevHash) =
          some (s.reworkEntry L p) := by
        have := find?_key_of_mem (·.1) hkeys hpr
        simpa [reworkEntry, hph] using this
      simp only [h0, ↓reduceIte, hfind, Option.map_some, hfilter, List.map_append,
        List.map_cons, List.map_nil, List.reverse_append, List.reverse_cons, List.reverse_nil,
        List.nil_append, List.cons_append, recomputedWork_of_parent hs hr.2 hp hph hh, reworkEntry]

/-! ## From batch to batch -/

/-- The store part way through the walk from `L`: the records below `lo` have their recalculated
work, the others are as in `s`, and all but the block records is `s`'s. -/
structure ReworkedBelow (s : Store) (L lo : Nat) (t : Store) : Prop where
  rest : { t with headers := [] } = { s with headers := [] }
  nodup : (t.headers.map (·.hash)).Nodup
  mem_iff : ∀ r, r ∈ t.headers ↔
    ∃ r0 ∈ s.headers, r = r0.withWork (if r0.height < lo then s.recomputedWork L r0 else r0.work)

/-- The entries the walk carries into the batch at `lo`: the records one height down, each once,
with their recalculated work. -/
structure ParentsAt (s : Store) (L lo : Nat) (P : List (Hash256 × Nat × Nat)) : Prop where
  keys_nodup : (P.map (·.1)).Nodup
  mem_iff : ∀ x, x ∈ P ↔ ∃ q ∈ s.headers, q.height + 1 = lo ∧ x = s.reworkEntry L q

namespace ReworkedBelow

variable {lo : Nat}

theorem start (hs : (s.headers.map (·.hash)).Nodup) : s.ReworkedBelow L L s := by
  refine ⟨rfl, hs, fun r => ⟨fun hr => ⟨r, hr, ?_⟩, ?_⟩⟩
  · split
    · rw [recomputedWork_of_lt (by omega), BlockRecord.withWork_self]
    · rw [BlockRecord.withWork_self]
  · rintro ⟨r0, hr0, rfl⟩
    split
    · rwa [recomputedWork_of_lt (by omega), BlockRecord.withWork_self]
    · rwa [BlockRecord.withWork_self]

theorem headerIndex (ht : s.ReworkedBelow L lo t) : t.headerIndex = s.headerIndex :=
  congrArg (·.headerIndex) ht.rest

theorem mem_of_le (ht : s.ReworkedBelow L lo t) {r : BlockRecord} (hr : r ∈ s.headers)
    (hle : lo ≤ r.height) : r ∈ t.headers :=
  (ht.mem_iff r).mpr ⟨r, hr, by rw [if_neg (by omega), BlockRecord.withWork_self]⟩

theorem index (ht : s.ReworkedBelow L lo t)
    (hs : IndexOf BlockRecord.hash BlockRecord.height s.headers s.headerIndex) :
    IndexOf BlockRecord.hash BlockRecord.height t.headers t.headerIndex := by
  refine ⟨ht.nodup, ht.headerIndex ▸ hs.nodup, fun e => ?_⟩
  rw [ht.headerIndex, hs.mem_iff]
  constructor
  · rintro ⟨r0, hr0, rfl⟩
    exact ⟨_, (ht.mem_iff _).mpr ⟨r0, hr0, rfl⟩, rfl⟩
  · rintro ⟨r, hr, rfl⟩
    obtain ⟨r0, hr0, rfl⟩ := (ht.mem_iff r).mp hr
    exact ⟨r0, hr0, rfl⟩

theorem mem_betweenHeights (hs : s.WorkShape) (ht : s.ReworkedBelow L lo t) {hi : Nat}
    {r : BlockRecord} :
    r ∈ t.betweenHeights lo hi ↔ r ∈ s.headers ∧ lo ≤ r.height ∧ r.height ≤ hi := by
  refine (mem_keysBetween_lookup (ht.index hs.index)).trans ⟨?_, ?_⟩
  · rintro ⟨hr, hlo, hhi⟩
    obtain ⟨r0, hr0, rfl⟩ := (ht.mem_iff r).mp hr
    simp only [BlockRecord.withWork_height] at hlo hhi
    rw [if_neg (by omega), BlockRecord.withWork_self]
    exact ⟨hr0, hlo, hhi⟩
  · rintro ⟨hr, hlo, hhi⟩
    exact ⟨ht.mem_of_le hr hlo, hlo, hhi⟩

end ReworkedBelow

theorem ParentsAt.start (hs : s.WorkShape) :
    s.ParentsAt L L (if L = 0 then [] else
      (s.atHeight (L - 1)).map fun r => (r.hash, r.height, r.work)) := by
  split
  · exact ⟨List.nodup_nil, fun x => by simp; omega⟩
  · rename_i hL
    have hmem : ∀ {r}, r ∈ s.atHeight (L - 1) ↔ r ∈ s.headers ∧ r.height = L - 1 :=
      mem_keysAt_lookup hs.index
    refine ⟨?_, fun x => ?_⟩
    · rw [List.map_map]
      exact (nodup_keysAt_lookup hs.index (L - 1)).map_on fun a ha b hb h =>
        List.inj_on_of_nodup_map hs.index.keys_nodup (hmem.mp ha).1 (hmem.mp hb).1 h
    · simp only [List.mem_map, hmem]
      constructor
      · rintro ⟨r, ⟨hr, hh⟩, rfl⟩
        exact ⟨r, hr, by omega, by rw [reworkEntry, recomputedWork_of_lt (by omega)]⟩
      · rintro ⟨r, hr, hh, rfl⟩
        exact ⟨r, ⟨hr, by omega⟩, by rw [reworkEntry, recomputedWork_of_lt (by omega)]⟩

section Batch

variable {lo hi : Nat} {P : List (Hash256 × Nat × Nat)}

theorem rework_batch (hs : s.WorkShape) (ht : s.ReworkedBelow L lo t) (hP : s.ParentsAt L lo P)
    (hL : L ≤ lo) :
    rework P (t.betweenHeights lo hi) =
      ((t.betweenHeights lo hi).map fun r => r.withWork (s.recomputedWork L r),
        (t.betweenHeights lo hi).reverse.map (s.reworkEntry L) ++ P) := by
  have hmem : ∀ {r}, r ∈ t.betweenHeights lo hi ↔ _ := ht.mem_betweenHeights hs
  refine rework_eq hs.index.keys_nodup
    (fun r hr => ⟨(hmem.mp hr).1, by have := (hmem.mp hr).2.1; omega⟩)
    (nodup_keysBetween_lookup (ht.index hs.index) lo hi)
    (sorted_keysBetween_lookup (ht.index hs.index) lo hi) (fun x hx => ?_) hP.keys_nodup
    (fun r hr h0 => ?_)
  · obtain ⟨q, hq, hh, rfl⟩ := (hP.mem_iff x).mp hx
    exact ⟨q, hq, fun h => by have := (hmem.mp h).2.1; omega, rfl⟩
  · -- the parent is one height down: among the entries given at `lo`, else in the batch
    obtain ⟨hr, hlo, hhi⟩ := hmem.mp hr
    obtain ⟨p, hp, hph, hh⟩ := hs.parent r hr h0
    refine ⟨p, hp, hph, hh, ?_⟩
    by_cases hplo : p.height + 1 = lo
    · exact .inl ((hP.mem_iff _).mpr ⟨p, hp, hplo, rfl⟩)
    · exact .inr (hmem.mpr ⟨hp, by omega, by omega⟩)

theorem ReworkedBelow.upsert_batch (hs : s.WorkShape) (ht : s.ReworkedBelow L lo t)
    (hlo : lo ≤ hi + 1) :
    s.ReworkedBelow L (hi + 1)
      (t.upsertAll ((t.betweenHeights lo hi).map fun r => r.withWork (s.recomputedWork L r))) := by
  have hmem : ∀ {r}, r ∈ t.betweenHeights lo hi ↔ _ := ht.mem_betweenHeights hs
  have hsnd := hs.index.keys_nodup
  -- the batch's hashes are distinct, and those of its records
  have hbkeys : (((t.betweenHeights lo hi).map fun r => r.withWork (s.recomputedWork L r)).map
      (·.hash)) = (t.betweenHeights lo hi).map (·.hash) := by
    simp [Function.comp_def]
  have hbnd : ((t.betweenHeights lo hi).map (·.hash)).Nodup :=
    (nodup_keysBetween_lookup (ht.index hs.index) lo hi).map_on fun a ha b hb h =>
      List.inj_on_of_nodup_map hsnd (hmem.mp ha).1 (hmem.mp hb).1 h
  have hhash : ∀ {r0}, r0 ∈ s.headers →
      (r0.hash ∈ (t.betweenHeights lo hi).map (·.hash) ↔ lo ≤ r0.height ∧ r0.height ≤ hi) := by
    intro r0 hr0
    constructor
    · intro h
      obtain ⟨q, hq, hqh⟩ := List.mem_map.mp h
      obtain ⟨hq, hqlo, hqhi⟩ := hmem.mp hq
      rw [List.inj_on_of_nodup_map hsnd hq hr0 hqh] at hqlo hqhi
      exact ⟨hqlo, hqhi⟩
    · rintro ⟨h1, h2⟩
      exact List.mem_map_of_mem (hmem.mpr ⟨hr0, h1, h2⟩)
  refine ⟨?_, nodup_foldl_putHeader _ _ ht.nodup, fun r => ?_⟩
  · rw [upsertAll_rest, ht.rest]
    intro x hx
    obtain ⟨q, hq, rfl⟩ := List.mem_map.mp hx
    rw [ht.headerIndex, hs.index.mem_iff]
    exact ⟨q, (hmem.mp hq).1, rfl⟩
  rw [mem_upsertAll (hbkeys ▸ hbnd), hbkeys]
  constructor
  · rintro (hr | ⟨hr, hn⟩)
    · obtain ⟨r0, hr0, rfl⟩ := List.mem_map.mp hr
      obtain ⟨hr0, -, hhi⟩ := hmem.mp hr0
      exact ⟨r0, hr0, by rw [if_pos (by omega)]⟩
    · obtain ⟨r0, hr0, rfl⟩ := (ht.mem_iff r).mp hr
      rw [BlockRecord.withWork_hash, hhash hr0] at hn
      refine ⟨r0, hr0, ?_⟩
      by_cases h : r0.height < lo
      · rw [if_pos h, if_pos (by omega)]
      · rw [if_neg h, if_neg (by omega)]
  · rintro ⟨r0, hr0, rfl⟩
    by_cases h1 : lo ≤ r0.height ∧ r0.height ≤ hi
    · rw [if_pos (by omega)]
      exact .inl (List.mem_map_of_mem (hmem.mpr ⟨hr0, h1⟩))
    · refine .inr ⟨(ht.mem_iff _).mpr ⟨r0, hr0, ?_⟩, by rwa [BlockRecord.withWork_hash, hhash hr0]⟩
      by_cases h : r0.height < lo
      · rw [if_pos h, if_pos (by omega)]
      · rw [if_neg h, if_neg (by omega)]

theorem ParentsAt.next (hs : s.WorkShape) (ht : s.ReworkedBelow L lo t) (hP : s.ParentsAt L lo P)
    (hlo : lo ≤ hi) :
    s.ParentsAt L (hi + 1)
      (((t.betweenHeights lo hi).reverse.map (s.reworkEntry L) ++ P).filter (·.2.1 == hi)) := by
  have hmem : ∀ {r}, r ∈ t.betweenHeights lo hi ↔ _ := ht.mem_betweenHeights hs
  have hkeys := entries_keys_nodup hs.index.keys_nodup (fun r hr => (hmem.mp hr).1)
    (nodup_keysBetween_lookup (ht.index hs.index) lo hi)
    (fun x hx => by
      obtain ⟨q, hq, hh, rfl⟩ := (hP.mem_iff x).mp hx
      exact ⟨q, hq, fun h => by have := (hmem.mp h).2.1; omega, rfl⟩) hP.keys_nodup (L := L)
  refine ⟨hkeys.sublist (List.filter_sublist.map _), fun x => ?_⟩
  simp only [List.mem_filter, List.mem_append, List.mem_map, List.mem_reverse, beq_iff_eq]
  constructor
  · rintro ⟨⟨q, hq, rfl⟩ | hx, hh⟩
    · exact ⟨q, (hmem.mp hq).1, by simp only [reworkEntry] at hh; omega, rfl⟩
    · -- the entries given at `lo` are one height down, below the batch
      obtain ⟨q, hq, hqh, rfl⟩ := (hP.mem_iff x).mp hx
      simp only [reworkEntry] at hh
      omega
  · rintro ⟨q, hq, hh, rfl⟩
    exact ⟨.inl ⟨q, hmem.mpr ⟨hq, by omega, by omega⟩, rfl⟩, by simp only [reworkEntry]; omega⟩

end Batch

/-! ## The whole walk -/

/-- Walking the batches from `lo` with enough fuel, never cancelled, reaches the top with every
record up to it recalculated. The walk also stops after the last 32-bit height, which is then
the top. -/
theorem ReworkedBelow.reworkFrom (hs : s.WorkShape) {size top : Nat}
    (htop32 : top < 2 ^ 32) :
    ∀ (fuel lo : Nat) (P : List (Hash256 × Nat × Nat)) (t : Store), L ≤ lo → lo ≤ top + 1 →
      top + 1 ≤ lo + fuel → s.ReworkedBelow L lo t → s.ParentsAt L lo P →
      ∃ t', Store.reworkFrom size top (fun _ => false) fuel lo P t = .ok t' ∧
        s.ReworkedBelow L (top + 1) t'
  | 0, lo, P, t, _, _, hfuel, ht, _ => by
    obtain rfl : lo = top + 1 := by omega
    exact ⟨t, rfl, ht⟩
  | fuel + 1, lo, P, t, hL, hlo, hfuel, ht, hP => by
    rw [Store.reworkFrom]
    by_cases hgt : lo > top
    · obtain rfl : lo = top + 1 := by omega
      rw [if_pos hgt]
      exact ⟨t, rfl, ht⟩
    rw [if_neg hgt, if_neg Bool.false_ne_true]
    dsimp only
    generalize hhi : min (min (lo + (size - 1)) (2 ^ 32 - 1)) top = hi
    have hb : rework P (t.betweenHeights lo hi) = _ := rework_batch hs ht hP hL
    rw [hb]
    have ht' : s.ReworkedBelow L (hi + 1) (t.upsertAll _) := ht.upsert_batch hs (by omega)
    dsimp only
    split_ifs with hmax
    · obtain rfl : hi = top := by omega
      exact ⟨_, rfl, ht'⟩
    · exact ReworkedBelow.reworkFrom hs htop32 fuel (hi + 1) _ _ (by omega) (by omega) (by omega)
        ht' (ParentsAt.next hs ht hP (by omega))

theorem ReworkedBelow.same_recomputed (hs : s.WorkShape) {top : Nat}
    (htop : ∀ r ∈ s.headers, r.height ≤ top) (ht : s.ReworkedBelow L (top + 1) t) :
    t.Same (s.recomputed L) := by
  have hnd : (s.recomputed L).headers.Nodup := by
    refine List.Nodup.of_map (·.hash) ?_
    simpa [recomputed, Function.comp_def] using hs.index.keys_nodup
  refine ⟨(List.perm_ext_iff_of_nodup (List.Nodup.of_map _ ht.nodup) hnd).mpr fun r => ?_, ht.rest⟩
  rw [ht.mem_iff, mem_recomputed]
  constructor
  · rintro ⟨r0, hr0, rfl⟩
    exact ⟨r0, hr0, by rw [if_pos (by have := htop r0 hr0; omega)]⟩
  · rintro ⟨r0, hr0, rfl⟩
    exact ⟨r0, hr0, by rw [if_pos (by have := htop r0 hr0; omega)]⟩

/-! ## Where the walk starts and ends -/

theorem lowestNoWorkHeight_spec
    (hi : IndexOf BlockRecord.hash BlockRecord.height s.headers s.headerIndex)
    (h : s.lowestNoWorkHeight = some L) :
    (∃ r ∈ s.headers, r.height = L ∧ r.work = 0) ∧ ∀ r ∈ s.headers, r.work = 0 → L ≤ r.height := by
  rw [lowestNoWorkHeight, List.min?_eq_some_iff] at h
  obtain ⟨hmem, hle⟩ := h
  have hfind : ∀ r ∈ s.headers, s.findByHash r.hash = some r :=
    fun r hr => findByHash_of_mem hi.keys_nodup hr
  refine ⟨?_, fun r hr h0 => hle _ ?_⟩
  · obtain ⟨e, he, rfl⟩ := List.mem_map.mp hmem
    obtain ⟨he, hw⟩ := List.mem_filter.mp he
    obtain ⟨r, hr, rfl⟩ := (hi.mem_iff e).mp he
    rw [hfind r hr] at hw
    exact ⟨r, hr, rfl, by simpa using hw⟩
  · refine List.mem_map.mpr ⟨(r.height, r.hash), List.mem_filter.mpr ⟨?_, ?_⟩, rfl⟩
    · exact (hi.mem_iff _).mpr ⟨r, hr, rfl⟩
    · simp [hfind r hr, h0]

theorem maxHeight_spec (hi : IndexOf BlockRecord.hash BlockRecord.height s.headers s.headerIndex)
    (d : Nat) :
    (∀ r ∈ s.headers, r.height ≤ s.maxHeight.getD d) ∧
      (s.headers ≠ [] → ∃ r ∈ s.headers, r.height = s.maxHeight.getD d) := by
  have hentry : ∀ r ∈ s.headers, r.height ∈ s.headerIndex.map (·.1) :=
    fun r hr => List.mem_map.mpr ⟨_, (hi.mem_iff _).mpr ⟨r, hr, rfl⟩, rfl⟩
  rcases hM : s.maxHeight with _ | M
  · -- no entry, so no record
    rw [maxHeight, maxIndexHeight, List.max?_eq_none_iff] at hM
    have hnil : s.headers = [] :=
      List.eq_nil_iff_forall_not_mem.mpr fun r hr => by simpa [hM] using hentry r hr
    simp [hnil]
  · rw [maxHeight, maxIndexHeight, List.max?_eq_some_iff] at hM
    refine ⟨fun r hr => hM.2 _ (hentry r hr), fun _ => ?_⟩
    obtain ⟨e, he, rfl⟩ := List.mem_map.mp hM.1
    obtain ⟨r, hr, rfl⟩ := (hi.mem_iff e).mp he
    exact ⟨r, hr, rfl⟩

theorem reworkFrom_same (hs : s.WorkShape) (hL : s.lowestNoWorkHeight = some L) (size : Nat) :
    ∃ t, Store.reworkFrom size (s.maxHeight.getD L) (fun _ => false) (s.maxHeight.getD L - L + 1) L
        (if L = 0 then [] else (s.atHeight (L - 1)).map fun r => (r.hash, r.height, r.work))
        s = .ok t ∧ t.Same (s.recomputed L) := by
  obtain ⟨⟨r, hr, rfl, -⟩, -⟩ := lowestNoWorkHeight_spec hs.index hL
  obtain ⟨htop, hex⟩ := maxHeight_spec hs.index r.height
  obtain ⟨m, hm, hmtop⟩ := hex (List.ne_nil_of_mem hr)
  have hle := htop r hr
  refine (ReworkedBelow.reworkFrom hs (hmtop ▸ hs.height_lt m hm) _ _ _ _ le_rfl (by omega)
    (by omega) (ReworkedBelow.start hs.index.keys_nodup) (ParentsAt.start hs)).imp
    fun t ht => ⟨ht.1, ReworkedBelow.same_recomputed hs htop ht.2⟩

/-! ## The one-pass store -/

theorem workFrom_recomputed (hs : s.WorkShape) : (s.recomputed L).WorkFrom L := by
  intro r hr hL
  obtain ⟨r0, hr0, rfl⟩ := mem_recomputed.mp hr
  simp only [BlockRecord.withWork_height, BlockRecord.withWork_work, BlockRecord.withWork_bits,
    BlockRecord.withWork_prevHash] at hL ⊢
  by_cases h0 : r0.height = 0
  · exact .inl ⟨h0, recomputedWork_zero hL h0⟩
  · obtain ⟨p, hp, hph, hh⟩ := hs.parent r0 hr0 h0
    exact .inr ⟨p.withWork (s.recomputedWork L p), mem_recomputed.mpr ⟨p, hp, rfl⟩, hph, hh,
      recomputedWork_of_parent hs.index.keys_nodup hL hp hph hh⟩

theorem WorkFrom.of_perm {u : Store} (hw : t.WorkFrom L) (h : t.headers.Perm u.headers) :
    u.WorkFrom L := by
  intro r hr hL
  rcases hw r (h.mem_iff.mpr hr) hL with h0 | ⟨p, hp, hph, hh, hwk⟩
  · exact .inl h0
  · exact .inr ⟨p, h.mem_iff.mp hp, hph, hh, hwk⟩

theorem mem_recomputed_of_lt {r : BlockRecord} (hr : r ∈ s.headers) (h : r.height < L) :
    r ∈ (s.recomputed L).headers :=
  mem_recomputed.mpr ⟨r, hr, by rw [recomputedWork_of_lt h, BlockRecord.withWork_self]⟩

theorem WorkShape.recomputed (hs : s.WorkShape) : (s.recomputed L).WorkShape := by
  refine ⟨⟨?_, hs.index.nodup, fun e => ?_⟩, fun r hr h0 => ?_, fun r hr => ?_⟩
  · simpa [Store.recomputed, Function.comp_def] using hs.index.keys_nodup
  · simp only [Store.recomputed, List.mem_map, hs.index.mem_iff]
    constructor
    · rintro ⟨r, hr, rfl⟩
      exact ⟨_, ⟨r, hr, rfl⟩, rfl⟩
    · rintro ⟨_, ⟨r, hr, rfl⟩, rfl⟩
      exact ⟨r, hr, rfl⟩
  · obtain ⟨r0, hr0, rfl⟩ := mem_recomputed.mp hr
    obtain ⟨p, hp, hph, hh⟩ := hs.parent r0 hr0 h0
    exact ⟨_, mem_recomputed.mpr ⟨p, hp, rfl⟩, hph, hh⟩
  · obtain ⟨r0, hr0, rfl⟩ := mem_recomputed.mp hr
    exact hs.height_lt r0 hr0

theorem WorkShape.of_same {u : Store} (hu : u.WorkShape) (h : t.Same u) : t.WorkShape := by
  have hidx : t.headerIndex = u.headerIndex := congrArg (·.headerIndex) h.rest
  refine ⟨⟨(h.perm.map _).nodup_iff.mpr hu.index.keys_nodup, hidx ▸ hu.index.nodup, fun e => ?_⟩,
    fun r hr h0 => ?_, fun r hr => hu.height_lt r (h.perm.mem_iff.mp hr)⟩
  · rw [hidx, hu.index.mem_iff]
    exact exists_congr fun r => and_congr_left' h.perm.mem_iff.symm
  · obtain ⟨p, hp, hph, hh⟩ := hu.parent r (h.perm.mem_iff.mp hr) h0
    exact ⟨p, h.perm.mem_iff.mpr hp, hph, hh⟩

theorem recomputedWork_eq_work (hnd : (t.headers.map (·.hash)).Nodup) (hw : t.WorkFrom L)
    {L' : Nat} (hLL : L ≤ L') : ∀ r ∈ t.headers, t.recomputedWork L' r = r.work := by
  -- by induction on the height: the parent is one height down
  suffices h : ∀ n, ∀ r ∈ t.headers, r.height = n → t.recomputedWork L' r = r.work from
    fun r hr => h _ r hr rfl
  intro n
  induction n using Nat.strong_induction_on with
  | _ n ih =>
    rintro r hr rfl
    by_cases hlt : r.height < L'
    · exact recomputedWork_of_lt hlt
    rcases hw r hr (by omega) with ⟨h0, hwk⟩ | ⟨p, hp, hph, hh, hwk⟩
    · rw [recomputedWork_zero (by omega) h0, hwk]
    · rw [recomputedWork_of_parent hnd (by omega) hp hph hh, ih p.height (by omega) p hp rfl, hwk]

theorem recomputed_eq_self (hnd : (t.headers.map (·.hash)).Nodup) (hw : t.WorkFrom L)
    {L' : Nat} (hLL : L ≤ L') : t.recomputed L' = t := by
  have hmap : t.headers.map (fun r => r.withWork (t.recomputedWork L' r)) = t.headers := by
    conv_rhs => rw [← List.map_id t.headers]
    exact List.map_congr_left fun r hr => by
      rw [recomputedWork_eq_work hnd hw hLL r hr, BlockRecord.withWork_self, id]
  simp only [Store.recomputed, hmap]

theorem le_lowestNoWorkHeight (hs : s.WorkShape) (hL : s.lowestNoWorkHeight = some L)
    (h : t.Same (s.recomputed L)) (ht : t.WorkShape) {L' : Nat}
    (hL' : t.lowestNoWorkHeight = some L') : L ≤ L' := by
  obtain ⟨⟨r, hr, rfl, hr0⟩, -⟩ := lowestNoWorkHeight_spec ht.index hL'
  obtain ⟨r0, hr0s, rfl⟩ := mem_recomputed.mp (h.perm.mem_iff.mp hr)
  simp only [BlockRecord.withWork_height, BlockRecord.withWork_work] at hr0 ⊢
  by_contra hlt
  rw [recomputedWork_of_lt (by omega)] at hr0
  have := (lowestNoWorkHeight_spec hs.index hL).2 r0 hr0s hr0
  omega

/-! ## A cancelled walk

The walk may stop before any batch. On any store whose indexes agree with its maps, each batch
reads the records of its heights and writes them back with other works only, so when the walk
stops, the records below its first height and those from the height where it stopped are as
they were. -/

theorem rework_fst_sublist (P : List (Hash256 × Nat × Nat)) (rs : List BlockRecord) :
    ((rework P rs).1.map (·.withWork 0)).Sublist (rs.map (·.withWork 0)) := by
  -- the batch is read from its first record on, so it grows at the end
  induction rs using List.reverseRecOn with
  | nil => simp [rework]
  | append_singleton rs r ih =>
    simp only [rework, List.foldl_append, List.foldl_cons, List.foldl_nil] at ih ⊢
    rw [List.map_append]
    split
    · exact ih.trans (List.sublist_append_left _ _)
    · rw [List.map_append]
      exact ih.append (by simp)

theorem mem_rework_fst {P : List (Hash256 × Nat × Nat)} {rs : List BlockRecord} {x : BlockRecord}
    (hx : x ∈ (rework P rs).1) : ∃ r ∈ rs, x = r.withWork x.work := by
  obtain ⟨r, hr, he⟩ := List.mem_map.mp
    ((rework_fst_sublist P rs).subset (List.mem_map_of_mem (f := (·.withWork 0)) hx))
  refine ⟨r, hr, ?_⟩
  rw [← BlockRecord.withWork_withWork r 0, he, BlockRecord.withWork_withWork,
    BlockRecord.withWork_self]

/-- The store part way through a walk from `L` that has reached `lo`: its indexes agree, only
block records changed, each only in its work, and those below `L` or from `lo` up are as in `s`. -/
structure WorkKept (s : Store) (L lo : Nat) (t : Store) : Prop where
  agrees : t.IndexAgrees
  rest : { t with headers := [] } = { s with headers := [] }
  kept : ∀ r ∈ s.headers, (r.height < L ∨ lo ≤ r.height) → r ∈ t.headers
  works : ∀ r ∈ t.headers, ∃ r0 ∈ s.headers, r = r0.withWork r.work

namespace WorkKept

variable {lo : Nat}

theorem start (hs : s.IndexAgrees) : s.WorkKept L L s :=
  ⟨hs, rfl, fun _ hr _ => hr, fun r hr => ⟨r, hr, (BlockRecord.withWork_self r).symm⟩⟩

theorem batch (ht : s.WorkKept L lo t) (hL : L ≤ lo) (P : List (Hash256 × Nat × Nat)) {hi : Nat}
    (hlo : lo ≤ hi + 1) :
    s.WorkKept L (hi + 1) (t.upsertAll (rework P (t.betweenHeights lo hi)).1) := by
  have hmem : ∀ {r}, r ∈ t.betweenHeights lo hi ↔ _ := ht.agrees.mem_betweenHeights
  have hknd := ht.agrees.headers.keys_nodup
  -- two stored records of one hash are one record
  have hsame : ∀ {y z}, y ∈ t.headers → z ∈ t.headers → y.hash = z.hash → y = z :=
    fun hy hz h => List.inj_on_of_nodup_map hknd hy hz h
  have hxs : ∀ x ∈ (rework P (t.betweenHeights lo hi)).1, ∃ y ∈ t.headers,
      lo ≤ y.height ∧ y.height ≤ hi ∧ x = y.withWork x.work := by
    intro x hx
    obtain ⟨y, hy, hxy⟩ := mem_rework_fst hx
    obtain ⟨hy, hlo, hhi⟩ := hmem.mp hy
    exact ⟨y, hy, hlo, hhi, hxy⟩
  have hnd : ((rework P (t.betweenHeights lo hi)).1.map (·.hash)).Nodup := by
    have hsub := (rework_fst_sublist P (t.betweenHeights lo hi)).map (·.hash)
    simp only [List.map_map, Function.comp_def, BlockRecord.withWork_hash] at hsub
    refine List.Nodup.sublist hsub ((ht.agrees.nodup_betweenHeights lo hi).map_on ?_)
    intro a ha b hb hab
    exact hsame (hmem.mp ha).1 (hmem.mp hb).1 hab
  -- a written record has the hash of the stored record it reworks, and only that one's
  have hheight : ∀ x ∈ (rework P (t.betweenHeights lo hi)).1, ∀ y ∈ t.headers,
      y.hash = x.hash → y.height = x.height ∧ lo ≤ y.height ∧ y.height ≤ hi := by
    intro x hx y hy hyx
    obtain ⟨z, hz, hzlo, hzhi, hxz⟩ := hxs x hx
    rw [hxz, BlockRecord.withWork_hash] at hyx
    rw [hxz, BlockRecord.withWork_height, hsame hy hz hyx]
    exact ⟨rfl, hzlo, hzhi⟩
  refine ⟨ht.agrees.foldl_putHeader _ _ fun x hx y hy hyx => ?_, ?_, fun r hr hout => ?_,
    fun r hr => ?_⟩
  · rcases List.mem_append.mp hy with hy | hy
    · exact (hheight x hx y hy hyx).1
    · obtain ⟨z, hz, -, -, hyz⟩ := hxs y hy
      rw [hyz, BlockRecord.withWork_hash] at hyx
      rw [hyz, BlockRecord.withWork_height]
      exact (hheight x hx z hz hyx).1
  · rw [upsertAll_rest, ht.rest]
    intro x hx
    obtain ⟨z, hz, -, -, hxz⟩ := hxs x hx
    rw [hxz]
    exact (ht.agrees.headers.mem_iff _).mpr ⟨z, hz, rfl⟩
  · -- a record outside the batch's heights is not written over
    have hr' := ht.kept r hr (by omega)
    refine (mem_upsertAll hnd).mpr (.inr ⟨hr', fun hin => ?_⟩)
    obtain ⟨x, hx, hxr⟩ := List.mem_map.mp hin
    have := hheight x hx r hr' hxr.symm
    omega
  · rcases (mem_upsertAll hnd).mp hr with hr | ⟨hr, -⟩
    · obtain ⟨z, hz, -, -, hrz⟩ := hxs r hr
      obtain ⟨r0, hr0, hz0⟩ := ht.works z hz
      exact ⟨r0, hr0, by rw [hrz, hz0, BlockRecord.withWork_withWork, BlockRecord.withWork_work]⟩
    · exact ht.works r hr

end WorkKept

theorem WorkKept.reworkFrom {size top : Nat} {cancelled : Nat → Bool} :
    ∀ (fuel lo : Nat) (P : List (Hash256 × Nat × Nat)) (t t' : Store), L ≤ lo →
      s.WorkKept L lo t → Store.reworkFrom size top cancelled fuel lo P t = .error t' →
      ∃ h, lo ≤ h ∧ cancelled h = true ∧ s.WorkKept L h t'
  | 0, _, _, _, _, _, _, hw => by cases hw
  | fuel + 1, lo, P, t, t', hL, ht, hw => by
    rw [Store.reworkFrom] at hw
    by_cases hgt : lo > top
    · rw [if_pos hgt] at hw
      cases hw
    by_cases hc : cancelled lo = true
    · rw [if_neg hgt, if_pos hc] at hw
      cases hw
      exact ⟨lo, le_rfl, hc, ht⟩
    rw [if_neg hgt, if_neg hc] at hw
    dsimp only at hw
    generalize hhi : min (min (lo + (size - 1)) (2 ^ 32 - 1)) top = hi at hw
    rcases hrw : rework P (t.betweenHeights lo hi) with ⟨updated, parents⟩
    rw [hrw] at hw
    dsimp only at hw
    split_ifs at hw with hmax
    -- the walk goes on past a batch that does not end at the last 32-bit height
    have hb : s.WorkKept L (hi + 1) (t.upsertAll (rework P (t.betweenHeights lo hi)).1) :=
      ht.batch hL P (by omega)
    rw [hrw] at hb
    obtain ⟨h, hle, hch, hk⟩ := WorkKept.reworkFrom fuel (hi + 1) _ _ t' (by omega) hb hw
    exact ⟨h, by omega, hch, hk⟩

end Store

open NodeStep

/-- Recalculating chain work, never cancelled, on a store of the header store's shape with any
works: with no record lacking work it changes nothing; otherwise, from the lowest height `L` of
such a record, it succeeds, every record from `L` up then has its parent's work plus its own
proof (its own proof alone at height zero), every record below `L` is kept as it was, the store
is the one recalculated in one pass, any batch size gives the same store, and a second run
changes nothing. -/
theorem chain_work_recalculated_from_lowest (v : View) (n : Node) (hs : n.store.WorkShape) :
    (n.store.lowestNoWorkHeight = none → recalculateChainWork v (fun _ => false) n = .ok v n) ∧
    ∀ L, n.store.lowestNoWorkHeight = some L →
      ∃ v' n', recalculateChainWork v (fun _ => false) n = .ok v' n' ∧
        n'.store.WorkFrom L ∧
        (∀ r ∈ n.store.headers, r.height < L → r ∈ n'.store.headers) ∧
        n'.store.Same (n.store.recomputed L) ∧
        (∀ size, ∃ v₂ n₂, recalculateChainWork
          { v with config := { v.config with chainWorkBatchSize := size } } (fun _ => false) n =
            .ok v₂ n₂ ∧ n₂.store.Same n'.store) ∧
        ∃ v'' n'', recalculateChainWork v' (fun _ => false) n' = .ok v'' n'' ∧
          n''.store.Same n'.store := by
  refine ⟨recalculateChainWork_of_none, fun L hL => ?_⟩
  obtain ⟨t, hwalk, hsame⟩ := Store.reworkFrom_same hs hL v.config.chainWorkBatchSize
  obtain ⟨v', n', hrun, hst⟩ := recalculateChainWork_of_ok hL hwalk
  rw [← hst] at hsame
  have hw : n'.store.WorkFrom L := (Store.workFrom_recomputed hs).of_perm hsame.perm.symm
  refine ⟨v', n', hrun, hw, fun r hr hlt => hsame.perm.mem_iff.mpr (Store.mem_recomputed_of_lt hr hlt),
    hsame, fun size => ?_, ?_⟩
  · obtain ⟨t₂, hwalk₂, hsame₂⟩ := Store.reworkFrom_same hs hL size
    obtain ⟨v₂, n₂, hrun₂, hst₂⟩ := recalculateChainWork_of_ok
      (v := { v with config := { v.config with chainWorkBatchSize := size } }) hL hwalk₂
    exact ⟨v₂, n₂, hrun₂, hst₂ ▸ hsame₂.trans hsame.symm⟩
  · -- the second walk starts no lower and finds every work as the first left it
    have hs' : n'.store.WorkShape := hs.recomputed.of_same hsame
    rcases hL' : n'.store.lowestNoWorkHeight with _ | L'
    · exact ⟨v', n', recalculateChainWork_of_none hL', Store.Same.refl _⟩
    · obtain ⟨t'', hwalk', hsame'⟩ := Store.reworkFrom_same hs' hL' v'.config.chainWorkBatchSize
      obtain ⟨v'', n'', hrun', hst'⟩ := recalculateChainWork_of_ok hL' hwalk'
      have hLL := Store.le_lowestNoWorkHeight hs hL hsame hs' hL'
      rw [Store.recomputed_eq_self hs'.index.keys_nodup hw hLL, ← hst'] at hsame'
      exact ⟨v'', n'', hrun', hsame'⟩

/-- A refused request changes nothing, except a cancelled recalculation, which keeps the batches
it wrote. A refused request other than a recalculation leaves every store map, every session's
generation and the queue of events as they were. A recalculation refused on a store whose
indexes agree with its maps was cancelled: the flag was read set at a height `h` at or above the
lowest height `L` of a record with no work, the walk changed only works of records from `L` up to
below `h`, every record below `L` or from `h` up is as it was, and nothing else changed. With the
flag already set at entry, recalculation changes nothing. -/
theorem refused_requests_change_nothing :
    (∀ (req : Request) (v : View) (n n' : Node) (e : Error),
      (∀ cancelled, req ≠ .recalculateWork cancelled) → req.run v n = .error e n' →
        n'.store = n.store ∧ n'.generations = n.generations ∧ n'.outbox = n.outbox) ∧
    (∀ (v : View) (cancelled : Nat → Bool) (n n' : Node) (e : Error), n.store.IndexAgrees →
      recalculateChainWork v cancelled n = .error e n' →
        e = .cancelled ∧ n'.generations = n.generations ∧ n'.outbox = n.outbox ∧
        { n'.store with headers := [] } = { n.store with headers := [] } ∧
        (∀ r ∈ n'.store.headers, ∃ r0 ∈ n.store.headers, r = r0.withWork r.work) ∧
        ∃ L h, n.store.lowestNoWorkHeight = some L ∧ L ≤ h ∧ cancelled h = true ∧
          ∀ r ∈ n.store.headers, r.height < L ∨ h ≤ r.height → r ∈ n'.store.headers) ∧
    ∀ (v : View) (n : Node), recalculateChainWork v (fun _ => true) n = .ok v n ∨
      recalculateChainWork v (fun _ => true) n = .error .cancelled n := by
  refine ⟨fun req v n n' e hreq h => ?_, fun v cancelled n n' e hagree h => ?_,
    recalculateChainWork_of_cancel⟩
  · rcases Request.run_error h with rfl | ⟨cancelled, rfl, -⟩
    · exact ⟨rfl, rfl, rfl⟩
    · exact absurd rfl (hreq cancelled)
  · obtain ⟨rfl, L, hL, hwalk, hn'⟩ := recalculateChainWork_error h
    obtain ⟨h, hle, hch, hk⟩ := Store.WorkKept.reworkFrom _ _ _ _ _ le_rfl
      (Store.WorkKept.start hagree) hwalk
    rw [hn']
    exact ⟨rfl, rfl, rfl, hk.rest, hk.works, L, h, hL, hle, hch, fun r hr hout => hk.kept r hr hout⟩

/-! ## Two records with no work -/

def staleChild : Header :=
  ⟨1, Network.regtest.params.genesis.hash, ⟨⟨Array.replicate 32 1⟩, Array.size_replicate⟩,
    1296689202, 0x207fffff, 0⟩

theorem genesis_hash_ne_staleChild : Network.regtest.params.genesis.hash ≠ staleChild.hash := by
  decide +kernel

theorem blockProof_regtest : Work.blockProof 0x207fffff = 2 := by decide +kernel

def zeroedPair : Node :=
  { store := (Store.empty.putHeader (BlockRecord.new Network.regtest.params.genesis 0 0)).putHeader
      (BlockRecord.new staleChild 1 0) }

def oneHeightBatches : View :=
  { View.opened .forTesting with config := { Config.forTesting with chainWorkBatchSize := 1 } }

theorem zeroedPair_agrees : zeroedPair.store.IndexAgrees := by
  refine (Store.IndexAgrees.empty.putHeader _ (by simp [Store.empty])).putHeader _ fun y hy hyx => ?_
  simp only [Store.putHeader_headers, Store.empty, List.filter_nil, List.mem_singleton] at hy
  subst hy
  exact absurd hyx genesis_hash_ne_staleChild

theorem zeroedPair_headers : zeroedPair.store.headers =
    [BlockRecord.new staleChild 1 0, BlockRecord.new Network.regtest.params.genesis 0 0] := by
  have hne : (Network.regtest.params.genesis.hash != staleChild.hash) = true :=
    bne_iff_ne.mpr genesis_hash_ne_staleChild
  simp only [zeroedPair, Store.putHeader_headers, Store.empty, List.filter_nil,
    List.filter_singleton, BlockRecord.new, hne, cond_true]

theorem zeroedPair_workShape : zeroedPair.store.WorkShape := by
  refine ⟨Store.IndexAgrees.headers zeroedPair_agrees, fun r hr h0 => ?_, fun r hr => ?_⟩
  · rw [zeroedPair_headers] at hr ⊢
    -- the child's parent is the genesis record one height down
    rcases List.mem_pair.mp hr with rfl | rfl
    · exact ⟨_, List.mem_cons_of_mem _ List.mem_cons_self, rfl, rfl⟩
    · exact absurd rfl h0
  · rw [zeroedPair_headers] at hr
    rcases List.mem_pair.mp hr with rfl | rfl <;> decide

/-- Recalculated one height at a time, the pair's walk carries the genesis record's work into
the second batch, whatever the batch size gives the same store, and a second run keeps it. -/
theorem zeroedPair_work_recalculated :
    zeroedPair.store.WorkShape ∧
    (zeroedPair.store.lowestNoWorkHeight = none →
      recalculateChainWork oneHeightBatches (fun _ => false) zeroedPair = .ok oneHeightBatches zeroedPair) ∧
    ∀ L, zeroedPair.store.lowestNoWorkHeight = some L →
      ∃ v' n', recalculateChainWork oneHeightBatches (fun _ => false) zeroedPair = .ok v' n' ∧
        n'.store.WorkFrom L ∧
        (∀ r ∈ zeroedPair.store.headers, r.height < L → r ∈ n'.store.headers) ∧
        n'.store.Same (zeroedPair.store.recomputed L) ∧
        (∀ size, ∃ v₂ n₂, recalculateChainWork
          { oneHeightBatches with config := { oneHeightBatches.config with chainWorkBatchSize := size } }
            (fun _ => false) zeroedPair = .ok v₂ n₂ ∧ n₂.store.Same n'.store) ∧
        ∃ v'' n'', recalculateChainWork v' (fun _ => false) n' = .ok v'' n'' ∧
          n''.store.Same n'.store :=
  ⟨zeroedPair_workShape,
    chain_work_recalculated_from_lowest oneHeightBatches zeroedPair zeroedPair_workShape⟩

theorem zeroedPair_headerIndex : zeroedPair.store.headerIndex =
    [(0, Network.regtest.params.genesis.hash), (1, staleChild.hash)] := by
  simp [zeroedPair, Store.putHeader, Store.empty, BlockRecord.new, genesis_hash_ne_staleChild]

theorem zeroedPair_walk_cancelled :
    recalculateChainWork oneHeightBatches (· == 1) zeroedPair =
      .error .cancelled { zeroedPair with
        store := zeroedPair.store.upsertAll
          [(BlockRecord.new Network.regtest.params.genesis 0 0).withWork 2] } := by
  have hfind : zeroedPair.store.findByHash Network.regtest.params.genesis.hash =
      some (BlockRecord.new Network.regtest.params.genesis 0 0) := by
    simp [Store.findByHash, zeroedPair_headers, BlockRecord.new, Ne.symm genesis_hash_ne_staleChild]
  have hfindC : zeroedPair.store.findByHash staleChild.hash = some (BlockRecord.new staleChild 1 0) := by
    simp [Store.findByHash, zeroedPair_headers, BlockRecord.new]
  have hlow : zeroedPair.store.lowestNoWorkHeight = some 0 := by
    simp [Store.lowestNoWorkHeight, zeroedPair_headerIndex, hfind, hfindC, BlockRecord.new]
  have htop : zeroedPair.store.maxHeight = some 1 := by
    simp [Store.maxHeight, Store.maxIndexHeight, zeroedPair_headerIndex]
  have hbatch : zeroedPair.store.betweenHeights 0 0 =
      [BlockRecord.new Network.regtest.params.genesis 0 0] := by
    rw [Store.betweenHeights, keysBetween_eq _ le_rfl, zeroedPair_headerIndex]
    simp [hfind]
  have hrework : Store.rework [] [BlockRecord.new Network.regtest.params.genesis 0 0] =
      ([(BlockRecord.new Network.regtest.params.genesis 0 0).withWork 2],
        [(Network.regtest.params.genesis.hash, 0, 2)]) := by
    have hbits : Network.regtest.params.genesis.bits = 0x207fffff := rfl
    simp [Store.rework, BlockRecord.new, BlockRecord.bits, hbits, blockProof_regtest]
  rw [recalculateChainWork_of_some (n := zeroedPair) hlow, htop, Option.getD_some,
    show oneHeightBatches.config.chainWorkBatchSize = 1 from rfl, if_pos rfl,
    show 1 - 0 + 1 = 1 + 1 from rfl, Store.reworkFrom, if_neg (by omega),
    if_neg (by decide), show min (min (0 + (1 - 1)) (2 ^ 32 - 1)) 1 = 0 from rfl]
  dsimp only
  rw [hbatch, hrework, if_neg (by omega), Store.reworkFrom, if_neg (by omega),
    if_pos (show (0 + 1 == 1) = true from rfl)]

/-- Cancelled before its second batch, the walk over the pair keeps the genesis record's new
work, and the child, in the batch not yet started, keeps its record. -/
theorem zeroedPair_cancel_keeps_child :
    zeroedPair.store.IndexAgrees ∧
    ∃ n', recalculateChainWork oneHeightBatches (· == 1) zeroedPair = .error .cancelled n' ∧
      (BlockRecord.new Network.regtest.params.genesis 0 0).withWork 2 ∈ n'.store.headers ∧
      BlockRecord.new staleChild 1 0 ∈ n'.store.headers := by
  refine ⟨zeroedPair_agrees, _, zeroedPair_walk_cancelled, ?_, ?_⟩
  · simp [Store.upsertAll, Store.putHeader]
  · obtain ⟨-, -, -, -, -, L, h, -, -, hch, hkept⟩ :=
      refused_requests_change_nothing.2.1 _ _ _ _ _ zeroedPair_agrees zeroedPair_walk_cancelled
    -- the flag was read set at height 1 only, where the child is
    obtain rfl : h = 1 := by simpa using hch
    exact hkept _ (by rw [zeroedPair_headers]; exact List.mem_cons_self) (.inr le_rfl)

/-! ## A stale index entry -/

/-- The test network's genesis record written at height 5, then again at height 0, both times
with work 7: the index keeps its entry at height 5. -/
def staleBase : Store :=
  (Store.empty.upsertAll [BlockRecord.new Network.regtest.params.genesis 5 7]).upsertAll
    [BlockRecord.new Network.regtest.params.genesis 0 7]

def staleStore : Store :=
  { headers := [BlockRecord.new staleChild 1 0, BlockRecord.new Network.regtest.params.genesis 0 7]
    headerIndex := [(5, Network.regtest.params.genesis.hash),
      (0, Network.regtest.params.genesis.hash), (1, staleChild.hash)] }

theorem staleStore_eq : staleBase.upsertAll [BlockRecord.new staleChild 1 0] = staleStore := by
  simp [staleBase, staleStore, Store.upsertAll, Store.putHeader, Store.empty,
    genesis_hash_ne_staleChild, BlockRecord.new]

theorem staleStore_betweenHeights : staleStore.betweenHeights 1 5 =
    [BlockRecord.new staleChild 1 0, BlockRecord.new Network.regtest.params.genesis 0 7] := by
  have hsort : ([(5, Network.regtest.params.genesis.hash), (0, Network.regtest.params.genesis.hash),
      (1, staleChild.hash)].filter fun e : Nat × Hash256 => 1 ≤ e.1 && e.1 ≤ 5).mergeSort
        (fun a b => a.1 ≤ b.1) = [(1, staleChild.hash), (5, Network.regtest.params.genesis.hash)] := by
    -- the two entries are at distinct heights, so the sorted order is the only one
    refine List.Perm.eq_of_pairwise ?_ (List.pairwise_mergeSort
      (fun a b c hab hbc => by simp only [decide_eq_true_eq] at *; omega)
      (fun a b => by simp only [Bool.or_eq_true, decide_eq_true_eq]; omega) _) (by simp)
      ((List.mergeSort_perm _ _).trans ?_)
    · intro a b ha hb hab hba
      simp at ha hb
      rcases ha with rfl | rfl <;> rcases hb with rfl | rfl <;> simp_all
    · simpa using List.Perm.swap _ _ _
  rw [Store.betweenHeights, keysBetween_eq _ (by omega), staleStore, hsort]
  simp [Store.findByHash, BlockRecord.new, Ne.symm genesis_hash_ne_staleChild]

/-- Recalculating from height 1 over the stale entry: the genesis record, below height 1, is read
in the batch up to height 5 after its child, and loses its work 7 for its own proof 2. -/
theorem stale_entry_reworks_lower_record :
    ∃ s, staleBase.createAll [BlockRecord.new staleChild 1 0] = .ok s ∧
      s.lowestNoWorkHeight = some 1 ∧ BlockRecord.new Network.regtest.params.genesis 0 7 ∈ s.headers ∧
      ∃ v' n', recalculateChainWork (View.opened .forTesting) (fun _ => false) { store := s } =
        .ok v' n' ∧
        BlockRecord.new Network.regtest.params.genesis 0 7 ∉ n'.store.headers ∧
        BlockRecord.new Network.regtest.params.genesis 0 2 ∈ n'.store.headers := by
  have hcreate : staleBase.createAll [BlockRecord.new staleChild 1 0] = .ok staleStore := by
    rw [Store.createAll, List.find?_eq_none.mpr]
    · exact congrArg _ staleStore_eq
    · simp [staleBase, Store.upsertAll, Store.putHeader, Store.empty, Store.findByHash,
        genesis_hash_ne_staleChild, BlockRecord.new]
  have hlow : staleStore.lowestNoWorkHeight = some 1 := by
    simp [staleStore, Store.lowestNoWorkHeight, Store.findByHash, BlockRecord.new,
      Ne.symm genesis_hash_ne_staleChild]
  refine ⟨_, hcreate, hlow, by simp [staleStore], ?_⟩
  rw [recalculateChainWork_of_some (n := { store := staleStore }) hlow]
  -- one batch, from 1 to 5, reads the child and then the genesis record
  have htop : staleStore.maxHeight = some 5 := by
    simp [staleStore, Store.maxHeight, Store.maxIndexHeight]
  rw [htop, Option.getD_some, show (View.opened .forTesting).config.chainWorkBatchSize = 10 from rfl,
    if_neg (by omega), show 5 - 1 + 1 = 4 + 1 from rfl, Store.reworkFrom, if_neg (by omega),
    if_neg Bool.false_ne_true, show min (min (1 + (10 - 1)) (2 ^ 32 - 1)) 5 = 5 from rfl]
  dsimp only
  rw [staleStore_betweenHeights]
  have hparents : staleStore.atHeight (1 - 1) = [BlockRecord.new Network.regtest.params.genesis 0 7] := by
    simp [staleStore, Store.atHeight, Store.keysAt, Store.findByHash, BlockRecord.new,
      Ne.symm genesis_hash_ne_staleChild]
  have hrework : (Store.rework ((staleStore.atHeight (1 - 1)).map fun r => (r.hash, r.height, r.work))
      [BlockRecord.new staleChild 1 0, BlockRecord.new Network.regtest.params.genesis 0 7]).1 =
      [(BlockRecord.new staleChild 1 0).withWork 9,
        (BlockRecord.new Network.regtest.params.genesis 0 7).withWork 2] := by
    have hbits : Network.regtest.params.genesis.bits = 0x207fffff := rfl
    have hchild : staleChild.bits = 0x207fffff ∧
        staleChild.prevHash = Network.regtest.params.genesis.hash := ⟨rfl, rfl⟩
    rw [hparents]
    simp [Store.rework, BlockRecord.new, BlockRecord.prevHash, BlockRecord.bits, hbits, hchild,
      blockProof_regtest, Work.addWork, Work.maxU256]
  rw [if_neg (by omega), Store.reworkFrom, if_pos (by omega), hrework]
  refine ⟨_, _, rfl, ?_⟩
  simp [Store.upsertAll, Store.putHeader, staleStore, BlockRecord.new, BlockRecord.withWork,
    genesis_hash_ne_staleChild]

end BitcoinLight
