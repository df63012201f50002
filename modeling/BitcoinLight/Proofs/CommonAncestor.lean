import BitcoinLight.Proofs.BatchRanges

set_option autoImplicit false

/-!
# The common-ancestor search

Two blocks are walked back in lock step from their ancestors at the lower of their heights until
both walks reach one block, and the query answers that block's height. In a store with the
header-store invariant each step goes exactly one height down on both sides, and two different
blocks at one height have the same common ancestors as their parents. So the walk meets at the
highest common ancestor of the two blocks, after exactly as many steps as that ancestor lies
below them (`View.meetFrom_eq`): the query's step budget, one more than the number of known
records, is never used up, and the search always ends with an answer.
-/

namespace BitcoinLight

namespace Store.CommonAncestorAt

variable {p : Params} {s : Store} {a b l r : BlockRecord} {j : Nat}

theorem le_height_left (h : s.CommonAncestorAt a b j) : j ≤ a.height := by
  obtain ⟨m, hm, hma, -⟩ := h.1
  exact hm ▸ hma.height_le

theorem to_parents (hs : HeaderStore p s) (hne : l ≠ r) (hh : l.height = r.height)
    {pl pr : BlockRecord} (hpl : pl ∈ s.headers) (hpr : pr ∈ s.headers) (hfl : Follows pl l)
    (hfr : Follows pr r) (h : s.CommonAncestorAt l r j) : s.CommonAncestorAt pl pr j := by
  obtain ⟨m, hm, hml, hmr⟩ := h.1
  -- the common ancestor is neither block, since it would then be the other one too
  have hml' : m ≠ l := by
    rintro rfl
    exact hne (hmr.eq_of_height_eq hh)
  have hmr' : m ≠ r := by
    rintro rfl
    exact hne (hml.eq_of_height_eq hh.symm).symm
  refine ⟨⟨m, hm, hml.to_parent hs hml' hpl hfl, hmr.to_parent hs hmr' hpr hfr⟩, ?_⟩
  intro m' hm'l hm'r
  exact h.2 m' (.parent hm'l hfl hml.mem_right) (.parent hm'r hfr hmr.mem_right)

end Store.CommonAncestorAt

namespace View

variable {p : Params} {s : Store} {v : View}

/-- The lock-step walk from two stored blocks at one height, given `fuel` steps, meets at their
highest common ancestor `j` exactly when `fuel` exceeds the number of heights from `j` up to the
blocks; with fewer steps it gives up. -/
theorem meetFrom_eq (hs : HeaderStore p s) (hcs : ∀ c ∈ v.chains, s.HoldsChain c) {j : Nat} :
    ∀ (fuel : Nat) (l r : BlockRecord), l ∈ s.headers → r ∈ s.headers → l.height = r.height →
      s.CommonAncestorAt l r j →
        View.meetFrom s v fuel (some l) (some r) = if l.height - j < fuel then some j else none
  | 0, _, _, _, _, _, _ => by simp [meetFrom]
  | fuel + 1, l, r, hl, hr, hh, hj => by
    by_cases heq : l.hash = r.hash
    · -- the walks meet, and the block is its own highest common ancestor
      obtain rfl := hs.eq_of_hash_eq hl hr heq
      have hjl : j = l.height := hj.height_eq (Store.CommonAncestorAt.of_isAncestor (.refl hl))
      rw [meetFrom, if_pos heq, if_pos (by omega), hjl]
    obtain ⟨pl, pr, hpl, hpr, hal, har, hstep⟩ := meetFrom_step hs hcs hl hr hh heq fuel
    have hlh := hal.height_eq
    have hrh := har.height_eq
    have hjp := hj.to_parents hs (ne_of_apply_ne BlockRecord.hash heq) hh hpl hpr hal.follows
      har.follows
    -- one step down on both sides leaves one height fewer to the common ancestor
    have hsteps : (pl.height - j < fuel) ↔ (l.height - j < fuel + 1) := by
      have := hjp.le_height_left
      omega
    rw [hstep, meetFrom_eq hs hcs fuel pl pr hpl hpr (by omega) hjp]
    simp only [hsteps]

/-- The common-ancestor search ends, and finds the highest common ancestor. In a store with the
header-store invariant whose height index names every record, seen through a view whose
candidates are stored chains, for every two stored blocks `a` and `b` with 32-bit heights there
is a height `j` of the highest block that both descend from (or are); the query answers `j`; and
the lock-step walk from the blocks' ancestors at the lower of their heights meets there after
exactly `min a.height b.height - j` steps back, so with any budget of more steps than that it
answers `j` and with fewer it gives up. -/
theorem commonAncestorHeight_finds_highest (hs : HeaderStore p s) (hcov : s.IndexCovers)
    (hcs : ∀ c ∈ v.chains, s.HoldsChain c) {a b : BlockRecord} (ha : a ∈ s.headers)
    (hb : b ∈ s.headers) (ha32 : a.height < 2 ^ 32) (hb32 : b.height < 2 ^ 32) :
    ∃ j, s.CommonAncestorAt a b j ∧ v.commonAncestorHeight s a b = .ok j ∧
      ∀ fuel, View.meetFrom s v fuel (v.ancestorAt s a (min a.height b.height))
          (v.ancestorAt s b (min a.height b.height)) =
        if min a.height b.height - j < fuel then some j else none := by
  obtain ⟨la, hla, hlaa⟩ := Store.IsAncestor.exists_at_height hs ha (min_le_left a.height b.height)
  obtain ⟨lb, hlb, hlbb⟩ := Store.IsAncestor.exists_at_height hs hb (min_le_right a.height b.height)
  have hal := (ancestorAt_eq_some_iff (v := v) hs hcov hcs ha ha32).mpr ⟨hla, hlaa⟩
  have hbl := (ancestorAt_eq_some_iff (v := v) hs hcov hcs hb hb32).mpr ⟨hlb, hlbb⟩
  -- the two ancestors have a highest common ancestor, and it is the blocks' own
  obtain ⟨j, -, hj⟩ := meetFrom_spec hs hcs (la.height + 1) la lb hlaa.mem_left hlbb.mem_left
    (by omega) (Nat.lt_succ_self _)
  have hsteps : ∀ fuel, View.meetFrom s v fuel (some la) (some lb) =
      if la.height - j < fuel then some j else none := fun fuel =>
    meetFrom_eq hs hcs fuel la lb hlaa.mem_left hlbb.mem_left (by omega) hj
  -- the budget counts every known record, more than there are heights below the blocks
  have hfuel : la.height - j < s.headerCount + (v.chains.map (·.length)).sum + 1 := by
    have := hs.height_lt_headerCount hlaa.mem_left
    omega
  refine ⟨j, hj.of_ancestors hs hlaa hlbb hla hlb, ?_, fun fuel => ?_⟩
  · simp only [commonAncestorHeight, hal, hbl, hsteps, if_pos hfuel]
  · rw [hal, hbl, hsteps fuel, hla]

end View

end BitcoinLight
