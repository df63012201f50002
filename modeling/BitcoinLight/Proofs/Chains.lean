import Mathlib
import BitcoinLight.Store.Basic

set_option autoImplicit false

/-!
# Linked chains and where their records come from

`Linked` is the standard library's `List.IsChain` of `Follows`, so the library's lemmas on
prefixes, suffixes and appends carry over. The operations that make candidate chains keep it:
pushing a record that follows the tip, trimming to a depth, cutting after a hash, and walking
back from a tip through a look-up. A walk back ends at its tip and takes every other record from
the look-up, so the chains read from the store hold stored records only.
-/

namespace BitcoinLight

theorem linked_iff_isChain : ∀ rs : List BlockRecord, Linked rs ↔ rs.IsChain Follows
  | [] => by simp [Linked]
  | [_] => by simp [Linked]
  | p :: c :: rest => by rw [Linked, List.isChain_cons_cons, linked_iff_isChain (c :: rest)]

theorem Linked.of_isPrefix {rs qs : List BlockRecord} (h : Linked rs) (hq : qs <+: rs) :
    Linked qs := by
  rw [linked_iff_isChain] at h ⊢
  exact h.prefix hq

theorem Linked.drop {rs : List BlockRecord} (h : Linked rs) (k : Nat) : Linked (rs.drop k) := by
  rw [linked_iff_isChain] at h ⊢
  exact h.drop k

theorem Linked.concat {rs : List BlockRecord} {t r : BlockRecord} (h : Linked rs)
    (ht : rs.getLast? = some t) (hf : Follows t r) : Linked (rs ++ [r]) := by
  rw [linked_iff_isChain] at h ⊢
  refine h.append (List.isChain_singleton r) ?_
  intro x hx y hy
  rw [ht, Option.mem_some_iff] at hx
  rw [List.head?_cons, Option.mem_some_iff] at hy
  subst hx hy
  exact hf

theorem Linked.cons {rs : List BlockRecord} {p c : BlockRecord} (h : Linked (c :: rs))
    (hf : Follows p c) : Linked (p :: c :: rs) :=
  ⟨hf, h⟩

theorem Linked.pairwise_height {rs : List BlockRecord} (h : Linked rs) :
    rs.Pairwise fun x y => x.height < y.height := by
  rw [linked_iff_isChain] at h
  have hc : (rs.map (·.height)).IsChain (· < ·) :=
    List.isChain_map_of_isChain _ (fun x y hxy => by rw [hxy.1]; omega) h
  exact List.pairwise_map.mp (List.isChain_iff_pairwise.mp hc)

theorem Linked.eq_of_height_eq {rs : List BlockRecord} (h : Linked rs) {a b : BlockRecord}
    (ha : a ∈ rs) (hb : b ∈ rs) (hab : a.height = b.height) : a = b := by
  have hp := h.pairwise_height
  clear h
  induction rs with
  | nil => simp at ha
  | cons x rest ih =>
    rw [List.pairwise_cons] at hp
    rcases List.mem_cons.mp ha with rfl | ha' <;> rcases List.mem_cons.mp hb with rfl | hb'
    · rfl
    · have := hp.1 b hb'; omega
    · have := hp.1 a ha'; omega
    · exact ih ha' hb' hp.2

theorem Linked.exists_follows : ∀ {rs : List BlockRecord}, Linked rs → ∀ {x : BlockRecord},
    x ∈ rs → rs.getLast?.map (·.hash) ≠ some x.hash → ∃ y ∈ rs, Follows x y
  | [], _, _, hx, _ => by simp at hx
  | [_], _, _, hx, hl => by
    rw [List.mem_singleton.mp hx] at hl
    simp at hl
  | a :: b :: rest, h, x, hx, hl => by
    rcases List.mem_cons.mp hx with rfl | hx
    · exact ⟨b, by simp, h.1⟩
    · rw [List.getLast?_cons_cons] at hl
      obtain ⟨y, hy, hf⟩ := Linked.exists_follows h.2 hx hl
      exact ⟨y, List.mem_cons_of_mem _ hy, hf⟩

namespace Chain

@[simp] theorem push_records (c : Chain) (r : BlockRecord) : (c.push r).records = c.records ++ [r] :=
  rfl

@[simp] theorem tip?_push (c : Chain) (r : BlockRecord) : (c.push r).tip? = some r :=
  List.getLast?_concat

theorem linked_push {c : Chain} {t r : BlockRecord} (hc : Linked c.records) (ht : c.tip? = some t)
    (hf : Follows t r) : Linked (c.push r).records :=
  hc.concat ht hf

theorem trim_records (c : Chain) (d : Nat) : (c.trim d).records = c.records.drop (c.length - d) :=
  rfl

theorem linked_trim {c : Chain} (hc : Linked c.records) (d : Nat) : Linked (c.trim d).records :=
  hc.drop _

theorem mem_of_mem_trim {c : Chain} {d : Nat} {r : BlockRecord} (h : r ∈ (c.trim d).records) :
    r ∈ c.records :=
  List.mem_of_mem_drop h

theorem tip?_trim (c : Chain) {d : Nat} (hd : 0 < d) : (c.trim d).tip? = c.tip? := by
  simp only [tip?, trim_records, List.getLast?_drop, length]
  split
  · rename_i h
    have hnil : c.records = [] := List.eq_nil_of_length_eq_zero (by omega)
    simp [hnil]
  · rfl

theorem prefixThrough_spec {c p : Chain} {h : Hash256} (hp : c.prefixThrough h = some p) :
    p.records <+: c.records ∧ ∃ t, p.tip? = some t ∧ t.hash = h := by
  simp only [prefixThrough, position?, Option.map_map, Option.map_eq_some_iff] at hp
  obtain ⟨⟨r, i⟩, hl, rfl⟩ := hp
  have hmem := List.mem_of_getLast? hl
  rw [List.mem_filter, List.mem_zipIdx_iff_getElem?] at hmem
  obtain ⟨hi, hh⟩ := hmem
  refine ⟨List.take_prefix _ _, r, ?_, by simpa using hh⟩
  have hlen : i < c.records.length := (List.getElem?_eq_some_iff.mp hi).1
  simp only [tip?, Function.comp, List.getLast?_take, Nat.add_one_ne_zero, ↓reduceIte,
    Nat.add_sub_cancel]
  simp [hi]

theorem linked_prefixThrough {c p : Chain} {h : Hash256} (hc : Linked c.records)
    (hp : c.prefixThrough h = some p) : Linked p.records :=
  hc.of_isPrefix (prefixThrough_spec hp).1

section Walk

variable {lookup : Hash256 → Option BlockRecord} {K : BlockRecord → Prop}

theorem walkFrom_spec (hl : ∀ h r, lookup h = some r → r.hash = h ∧ K r) :
    ∀ (fuel : Nat) (oldest : BlockRecord) (rest : List BlockRecord), Linked (oldest :: rest) →
      ∃ pre, walkFrom lookup fuel oldest (oldest :: rest) = pre ++ oldest :: rest ∧
        Linked (pre ++ oldest :: rest) ∧ ∀ r ∈ pre, K r
  | 0, _, _, h => ⟨[], rfl, h, by simp⟩
  | fuel + 1, oldest, rest, h => by
    by_cases h0 : oldest.height = 0
    · exact ⟨[], by simp [walkFrom, h0], h, by simp⟩
    rcases hp : lookup oldest.prevHash with _ | p
    · exact ⟨[], by simp [walkFrom, h0, hp], h, by simp⟩
    by_cases hh : p.height + 1 = oldest.height
    · obtain ⟨hph, hK⟩ := hl _ _ hp
      have hf : Follows p oldest := ⟨hh.symm, hph.symm⟩
      obtain ⟨pre, heq, hlk, hpre⟩ := walkFrom_spec hl fuel p (oldest :: rest) (h.cons hf)
      refine ⟨pre ++ [p], by simp [walkFrom, h0, hp, hh, heq], by simpa using hlk, ?_⟩
      intro r hr
      rcases List.mem_append.mp hr with hr | hr
      · exact hpre r hr
      · rw [List.mem_singleton.mp hr]; exact hK
    · exact ⟨[], by simp [walkFrom, h0, hp, hh], h, by simp⟩

theorem walkBack_spec (hl : ∀ h r, lookup h = some r → r.hash = h ∧ K r) (tip : BlockRecord)
    (len : Nat) :
    ∃ pre, (walkBack tip lookup len).records = pre ++ [tip] ∧ Linked (pre ++ [tip]) ∧
      ∀ r ∈ pre, K r :=
  walkFrom_spec hl (len - 1) tip [] trivial

end Walk

end Chain

namespace Store

theorem lookupIn_spec {rs : List BlockRecord} {h : Hash256} {r : BlockRecord}
    (hr : lookupIn rs h = some r) : r.hash = h ∧ r ∈ rs := by
  unfold lookupIn at hr
  exact ⟨by simpa using List.find?_some hr, List.mem_reverse.mp (List.mem_of_find?_eq_some hr)⟩

theorem findByHash_spec {s : Store} {h : Hash256} {r : BlockRecord}
    (hr : s.findByHash h = some r) : r.hash = h ∧ r ∈ s.headers := by
  unfold findByHash at hr
  exact ⟨by simpa using List.find?_some hr, List.mem_of_find?_eq_some hr⟩

theorem mem_betweenHeights {s : Store} {lo hi : Nat} {r : BlockRecord}
    (hr : r ∈ s.betweenHeights lo hi) : r ∈ s.headers := by
  obtain ⟨h, -, hf⟩ := List.mem_filterMap.mp hr
  exact (findByHash_spec hf).2

theorem mem_chainTips {s : Store} {t : BlockRecord} :
    t ∈ s.chainTips ↔ t ∈ s.headers ∧ ∀ x ∈ s.headers, x.prevHash ≠ t.hash := by
  simp [chainTips]

def HoldsChain (s : Store) (c : Chain) : Prop := Linked c.records ∧ ∀ r ∈ c.records, r ∈ s.headers

theorem HoldsChain.mono {s s' : Store} {c : Chain} (h : s.HoldsChain c)
    (hs : ∀ r ∈ s.headers, r ∈ s'.headers) : s'.HoldsChain c :=
  ⟨h.1, fun r hr => hs r (h.2 r hr)⟩

theorem HoldsChain.nodup_hash {s : Store} {c : Chain} (h : s.HoldsChain c)
    (hs : (s.headers.map (·.hash)).Nodup) : (c.records.map (·.hash)).Nodup := by
  refine List.Nodup.map_on (fun x hx y hy hxy => ?_) ?_
  · exact List.inj_on_of_nodup_map hs (h.2 x hx) (h.2 y hy) hxy
  · exact h.1.pairwise_height.imp fun hlt he => by subst he; exact Nat.lt_irrefl _ hlt

theorem chainTo_spec (s : Store) (tip : BlockRecord) (d : Nat) :
    ∃ pre, (s.chainTo tip d).records = pre ++ [tip] ∧ Linked (pre ++ [tip]) ∧
      ∀ r ∈ pre, r ∈ s.headers := by
  refine Chain.walkBack_spec (fun h r hr => ?_) tip d
  obtain ⟨hh, hm⟩ := lookupIn_spec hr
  exact ⟨hh, mem_betweenHeights hm⟩

@[simp] theorem tip?_chainTo (s : Store) (tip : BlockRecord) (d : Nat) :
    (s.chainTo tip d).tip? = some tip := by
  obtain ⟨pre, h, -⟩ := s.chainTo_spec tip d
  simp [Chain.tip?, h]

theorem holdsChain_chainTo {s : Store} {tip : BlockRecord} (ht : tip ∈ s.headers) (d : Nat) :
    s.HoldsChain (s.chainTo tip d) := by
  obtain ⟨pre, h, hl, hpre⟩ := s.chainTo_spec tip d
  refine ⟨h ▸ hl, fun r hr => ?_⟩
  rw [h, List.mem_append, List.mem_singleton] at hr
  rcases hr with hr | rfl
  · exact hpre r hr
  · exact ht

theorem mem_blockchains {s : Store} {d : Nat} {c : Chain} (hc : c ∈ s.blockchains d) :
    ∃ t ∈ s.chainTips, c = s.chainTo t d := by
  obtain ⟨t, ht, rfl⟩ := List.mem_map.mp hc
  exact ⟨t, ht, rfl⟩

theorem holdsChain_of_mem_blockchains {s : Store} {d : Nat} {c : Chain}
    (hc : c ∈ s.blockchains d) : s.HoldsChain c := by
  obtain ⟨t, ht, rfl⟩ := mem_blockchains hc
  exact holdsChain_chainTo (mem_chainTips.mp ht).1 d

theorem exists_blockchains_tip {s : Store} (d : Nat) {t : BlockRecord} (ht : t ∈ s.chainTips) :
    ∃ c ∈ s.blockchains d, c.tip? = some t :=
  ⟨s.chainTo t d, List.mem_map_of_mem ht, tip?_chainTo s t d⟩

theorem blockchainFrom_spec {s : Store} {h : Hash256} {d : Nat} {c : Chain}
    (hc : s.blockchainFrom h d = some c) : ∃ r, s.findByHash h = some r ∧ c = s.chainTo r d := by
  obtain ⟨r, hr, rfl⟩ := Option.map_eq_some_iff.mp hc
  exact ⟨r, hr, rfl⟩

end Store

end BitcoinLight
