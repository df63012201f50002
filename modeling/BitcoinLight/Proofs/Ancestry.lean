import BitcoinLight.Proofs.FilterAcceptance

set_option autoImplicit false

/-!
# Ancestors from memory and from the store

The chain of `len` records ending at a stored block is cut from a candidate chain when one
reaches far enough down, and otherwise walked back through the store's height index. Both give
the same chain: the stored records, each the parent of the next, that end at the block, as many
as `len` asks and the block's height allows. So the ancestor of a block at a height is the
record at that height on the store's walk back to genesis, and there is none above the block.

A length counts records as a machine word does: the heights below the block that it covers are
taken modulo 2^32. Every length the queries ask for is at most 2^32: an ancestor query asks for
the records from a height up to the block, whose height is a 32-bit number.
-/

namespace BitcoinLight

namespace Store

variable {s : Store}

theorem chainTo_eq_trim (hnd : (s.headers.map (·.hash)).Nodup) (hcov : s.IndexCovers)
    (hpar : ∀ r ∈ s.headers, 0 < r.height → ∃ p ∈ s.headers, Follows p r) {tip : BlockRecord}
    (htip : tip ∈ s.headers) (h32 : tip.height < 2 ^ 32) {len : Nat} (hlen : 0 < len)
    (hlen32 : len ≤ 2 ^ 32) : s.chainTo tip len = (s.chainTo tip (tip.height + 1)).trim len := by
  have hfull := holdsChain_chainTo htip (tip.height + 1)
  have hpart := holdsChain_chainTo htip len
  have hfull_len := chainTo_length hnd hcov hpar htip (show 0 < tip.height + 1 by omega) (by omega)
  have hrec : (s.chainTo tip len).records = ((s.chainTo tip (tip.height + 1)).trim len).records := by
    refine Linked.eq_of_getLast? hnd hpart.1 (Chain.linked_trim hfull.1 len) hpart.2
      (fun r hr => hfull.2 r (Chain.mem_of_mem_trim hr)) ?_ ?_
    · exact (tip?_chainTo s tip len).trans
        ((Chain.tip?_trim _ hlen).trans (tip?_chainTo s tip _)).symm
    · have hpart_len := chainTo_length hnd hcov hpar htip hlen hlen32
      simp only [Chain.length] at hfull_len hpart_len
      rw [Chain.trim_records, List.length_drop, hpart_len]
      simp only [Chain.length, hfull_len]
      omega
  exact congrArg Chain.mk hrec

end Store

namespace View

variable {s : Store} {v : View}

theorem chainEndingAt_eq_chainTo (hcs : ∀ c ∈ v.chains, s.HoldsChain c)
    (hnd : (s.headers.map (·.hash)).Nodup) (hcov : s.IndexCovers)
    (hpar : ∀ r ∈ s.headers, 0 < r.height → ∃ p ∈ s.headers, Follows p r) {tip : BlockRecord}
    (htip : tip ∈ s.headers) {len : Nat} (hlen : 0 < len) (h32 : len ≤ 2 ^ 32) :
    v.chainEndingAt s tip len = s.chainTo tip len := by
  have hmem := holdsChain_chainEndingAt (v := v) hcs htip len
  have hsto := Store.holdsChain_chainTo htip len
  have hrec : (v.chainEndingAt s tip len).records = (s.chainTo tip len).records := by
    refine Linked.eq_of_getLast? hnd hmem.1 hsto.1 hmem.2 hsto.2 ?_ ?_
    · exact (chainEndingAt_tip? hcs hnd htip hlen).trans (Store.tip?_chainTo s tip len).symm
    · exact (chainEndingAt_length_eq_min hcs hnd hcov hpar htip hlen h32).trans
        (Store.chainTo_length hnd hcov hpar htip hlen h32).symm
  exact congrArg Chain.mk hrec

theorem ancestorAt_eq_first? (hcs : ∀ c ∈ v.chains, s.HoldsChain c)
    (hnd : (s.headers.map (·.hash)).Nodup) (hcov : s.IndexCovers)
    (hpar : ∀ r ∈ s.headers, 0 < r.height → ∃ p ∈ s.headers, Follows p r) {tip : BlockRecord}
    (htip : tip ∈ s.headers) (h32 : tip.height < 2 ^ 32) {hgt : Nat} (hle : hgt ≤ tip.height) :
    ∃ r, v.ancestorAt s tip hgt = some r ∧
      (s.chainTo tip (tip.height - hgt + 1)).first? = some r ∧ r.height = hgt := by
  have hlen : 0 < tip.height - hgt + 1 := by omega
  have hlen32 : tip.height - hgt + 1 ≤ 2 ^ 32 := by omega
  have hheld := Store.holdsChain_chainTo htip (tip.height - hgt + 1)
  have hclen := Store.chainTo_length hnd hcov hpar htip hlen hlen32
  obtain ⟨f, hf⟩ : ∃ f, (s.chainTo tip (tip.height - hgt + 1)).first? = some f := by
    refine Option.isSome_iff_exists.mp ?_
    rw [Chain.first?, List.isSome_head?, ← List.length_pos_iff]
    simp only [Chain.length] at hclen
    omega
  -- the walk climbs one height per record up to the block, so it starts at `hgt`
  have hfh : f.height = hgt := by
    obtain ⟨hl, hfle⟩ := Linked.length_eq hheld.1 hf (Store.tip?_chainTo s tip _)
    simp only [Chain.length] at hclen
    omega
  refine ⟨f, ?_, hf, hfh⟩
  rw [ancestorAt, if_neg (by omega), chainEndingAt_eq_chainTo hcs hnd hcov hpar htip hlen hlen32, hf]
  simp [hfh]

theorem ancestorAt_eq_getElem? (hcs : ∀ c ∈ v.chains, s.HoldsChain c)
    (hnd : (s.headers.map (·.hash)).Nodup) (hcov : s.IndexCovers)
    (hpar : ∀ r ∈ s.headers, 0 < r.height → ∃ p ∈ s.headers, Follows p r) {tip : BlockRecord}
    (htip : tip ∈ s.headers) (h32 : tip.height < 2 ^ 32) (hgt : Nat) :
    v.ancestorAt s tip hgt = (s.chainTo tip (tip.height + 1)).records[hgt]? := by
  have hfull_len :=
    Store.chainTo_length hnd hcov hpar htip (show 0 < tip.height + 1 by omega) (by omega)
  simp only [Chain.length] at hfull_len
  by_cases hle : hgt ≤ tip.height
  · obtain ⟨r, hr, hf, -⟩ := ancestorAt_eq_first? (v := v) hcs hnd hcov hpar htip h32 hle
    rw [hr, ← hf, Store.chainTo_eq_trim hnd hcov hpar htip h32 (by omega) (by omega), Chain.first?,
      Chain.trim_records, List.head?_drop]
    simp only [Chain.length, hfull_len]
    congr 1
    omega
  · rw [ancestorAt, if_pos (by omega), eq_comm, List.getElem?_eq_none_iff]
    omega

end View

/-- Ancestors are the same from memory and from the store. In a store where every record above
genesis has its parent stored, hashes are distinct and the height index names every record, the
chain of `len` records ending at a stored block, for every `len` from 1 to 2^32, is the store's
walk back: the stored records, each the parent of the next, ending at the block, as many as `len`
asks and the block's height allows, whether a candidate chain gives it or the store does. So the
ancestor at a height up to the block's is the stored record at that height on the walk back to
genesis, and there is none above the block. -/
theorem ancestors_same_from_memory_and_store {p : Params} {s : Store} {v : View}
    (hs : HeaderStore p s) (hcov : s.IndexCovers) (hcs : ∀ c ∈ v.chains, s.HoldsChain c)
    {tip : BlockRecord} (htip : tip ∈ s.headers) (h32 : tip.height < 2 ^ 32) :
    (∀ len, 0 < len → len ≤ 2 ^ 32 →
      v.chainEndingAt s tip len = s.chainTo tip len ∧
      s.HoldsChain (v.chainEndingAt s tip len) ∧ (v.chainEndingAt s tip len).tip? = some tip ∧
      (v.chainEndingAt s tip len).length = min len (tip.height + 1)) ∧
    (∀ hgt, v.ancestorAt s tip hgt = (s.chainTo tip (tip.height + 1)).records[hgt]?) ∧
    (∀ hgt ≤ tip.height, ∃ r, v.ancestorAt s tip hgt = some r ∧ r.height = hgt ∧ r ∈ s.headers) ∧
    (∀ hgt, tip.height < hgt → v.ancestorAt s tip hgt = none) := by
  have hpar : ∀ r ∈ s.headers, 0 < r.height → ∃ q ∈ s.headers, Follows q r := fun r hr h0 =>
    (hs.parent r hr h0).imp fun _ hq => ⟨hq.1, hq.2.follows⟩
  refine ⟨fun len hlen hlen32 =>
    ⟨View.chainEndingAt_eq_chainTo hcs hs.nodup hcov hpar htip hlen hlen32,
      View.holdsChain_chainEndingAt hcs htip len, View.chainEndingAt_tip? hcs hs.nodup htip hlen,
      View.chainEndingAt_length_eq_min hcs hs.nodup hcov hpar htip hlen hlen32⟩,
    View.ancestorAt_eq_getElem? hcs hs.nodup hcov hpar htip h32, fun hgt hle => ?_,
    fun hgt hlt => ?_⟩
  · -- the first record of the store's walk from that height, which is stored
    obtain ⟨r, hr, hf, hrh⟩ :=
      View.ancestorAt_eq_first? (v := v) hcs hs.nodup hcov hpar htip h32 hle
    exact ⟨r, hr, hrh, (Store.holdsChain_chainTo htip _).2 r (List.mem_of_mem_head? hf)⟩
  · rw [View.ancestorAt, if_pos hlt]

end BitcoinLight
