import BitcoinLight.Proofs.Chains
import BitcoinLight.Chain.Connect

set_option autoImplicit false

/-!
# What connecting headers keeps

A header connects on a record when it builds on it, meets its own target, and, on a network that
never lowers the target between retargets, carries the target of the record it builds on; the
record it gets is one higher and adds its work (`Accepted`). Connecting a run of new headers to
candidate chains keeps every candidate linked and made of known records, gives each hash one
record (`UpdatesValid`), and leaves every earlier tip either a tip of some candidate or the
parent of a record just connected (`TipsOpen`).
-/

namespace BitcoinLight

/-- `r` is the record of a header connected on `q`. -/
structure Accepted (p : Params) (q r : BlockRecord) : Prop where
  eq_child : r = q.child r.header
  prev_eq : r.prevHash = q.hash
  pow : checkProofOfWork r.header p = .ok true
  bits_eq : p.allowMinDifficulty = false → r.height % 2 ^ 32 % p.interval ≠ 0 → r.bits = q.bits

namespace Accepted

variable {p : Params} {q r : BlockRecord}

theorem height_eq (h : Accepted p q r) : r.height = q.height + 1 := by
  rw [h.eq_child]; rfl

theorem work_eq (h : Accepted p q r) : r.work = Work.addWork q.work (Work.blockProof r.bits) := by
  rw [h.eq_child]; rfl

theorem follows (h : Accepted p q r) : Follows q r := ⟨h.height_eq, h.prev_eq⟩

theorem child {tip : BlockRecord} {header : Header} (hprev : header.prevHash = tip.hash)
    (hpow : checkProofOfWork header p = .ok true)
    (hbits : p.allowMinDifficulty = false → (tip.height + 1) % 2 ^ 32 % p.interval ≠ 0 →
      header.bits = tip.bits) :
    Accepted p tip (tip.child header) :=
  ⟨rfl, hprev, hpow, hbits⟩

end Accepted

theorem nextWorkRequired_between {tip next : Header} {height : Nat} {p : Params}
    {ancestor : Nat → Option Header} (hmin : p.allowMinDifficulty = false)
    (hmod : (height + 1) % 2 ^ 32 % p.interval ≠ 0) :
    nextWorkRequired tip height next p ancestor = some tip.bits := by
  have hmod' : (height + 1) % 4294967296 % p.interval ≠ 0 := hmod
  simp [nextWorkRequired, hmod', hmin]

theorem checkWork_connected {header : Header} {tip : BlockRecord} {p : Params} {r : BlockRecord}
    (h : checkNewTip.checkWork header tip p = .connected r) :
    r = tip.child header ∧ checkProofOfWork header p = .ok true := by
  unfold checkNewTip.checkWork at h
  split at h
  · rename_i hpow
    cases h
    exact ⟨rfl, hpow⟩
  · cases h
  · cases h

theorem checkNewTip_connected {header : Header} {c : Chain} {p : Params} {r : BlockRecord}
    (h : checkNewTip header c p = .connected r) :
    ∃ tip, c.tip? = some tip ∧ r.header = header ∧ Accepted p tip r := by
  unfold checkNewTip at h
  rcases ht : c.tip? with _ | tip
  · simp [ht] at h
  simp only [ht] at h
  by_cases hprev : header.prevHash = tip.hash
  swap
  · simp [hprev] at h
  simp only [hprev, ne_eq, not_true_eq_false, ↓reduceIte] at h
  have hrule : p.allowMinDifficulty = false → (tip.height + 1) % 2 ^ 32 % p.interval ≠ 0 →
      nextWorkRequired tip.header tip.height header p
        (fun h => (c.atHeightIn c.records.toArray h).map (·.header)) = some tip.bits :=
    fun hmin hmod => nextWorkRequired_between hmin hmod
  generalize nextWorkRequired _ _ _ _ _ = expected at h hrule
  rcases expected with _ | b
  · -- no target rule applied: then the height is a retarget height or minimum difficulty holds
    obtain ⟨rfl, hpow⟩ := checkWork_connected h
    refine ⟨tip, rfl, rfl, Accepted.child hprev hpow fun hmin hmod => ?_⟩
    exact absurd (hrule hmin hmod) (by simp)
  · by_cases hb : b = header.bits
    · simp only [hb, not_true_eq_false, ↓reduceIte] at h
      obtain ⟨rfl, hpow⟩ := checkWork_connected h
      refine ⟨tip, rfl, rfl, Accepted.child hprev hpow fun hmin hmod => ?_⟩
      have hexp := hrule hmin hmod
      rw [Option.some.injEq] at hexp
      rw [← hb, hexp]
    · simp [hb] at h

theorem connectTip_eq (header : Header) (c : Chain) (p : Params) :
    connectTip header c p =
      if (c.tip?.map (·.hash == header.prevHash)).getD false then
        match checkNewTip header c p with
        | .connected r => .extend r
        | failure => .rejected failure
      else
        match c.prefixThrough header.prevHash with
        | none => .rejected (.badPrev header)
        | some fork =>
          match checkNewTip header fork p with
          | .connected r => .reorg r (fork.push r)
          | failure => .rejected failure := by
  unfold connectTip
  rcases c.tip? with _ | tip <;> rfl

theorem connectTip_extend {header : Header} {c : Chain} {p : Params} {r : BlockRecord}
    (h : connectTip header c p = .extend r) :
    ∃ tip, c.tip? = some tip ∧ r.header = header ∧ Accepted p tip r := by
  rw [connectTip_eq] at h
  split at h
  · split at h
    · rename_i hc
      cases h
      exact checkNewTip_connected hc
    · cases h
  · split at h
    · cases h
    · split at h <;> cases h

theorem connectTip_reorg {header : Header} {c fork : Chain} {p : Params} {r : BlockRecord}
    (h : connectTip header c p = .reorg r fork) :
    ∃ (pre : Chain) (tip : BlockRecord), pre.records <+: c.records ∧ pre.tip? = some tip ∧
      r.header = header ∧ Accepted p tip r ∧ fork = pre.push r := by
  rw [connectTip_eq] at h
  split at h
  · split at h <;> cases h
  · split at h
    · cases h
    · rename_i pre hpre
      split at h
      · rename_i hc
        cases h
        obtain ⟨tip, ht, hh, ha⟩ := checkNewTip_connected hc
        exact ⟨pre, tip, (Chain.prefixThrough_spec hpre).1, ht, hh, ha, rfl⟩
      · cases h

namespace ChainUpdate

variable {p : Params} {header : Header} {u u' : ChainUpdate}

theorem mem_step (hu : u' ∈ u.step p header) :
    (u'.chain = u.chain ∧ u'.connected = u.connected) ∨
      ∃ (pre : Chain) (tip r : BlockRecord), pre.records <+: u.chain.records ∧ pre.tip? = some tip ∧ r.header = header ∧
        Accepted p tip r ∧ u'.chain = pre.push r ∧ r ∈ u'.connected ∧
        ∀ x ∈ u'.connected, x ∈ u.connected ∨ x = r := by
  unfold step at hu
  split at hu
  · rw [List.mem_singleton.mp hu]
    exact .inl ⟨rfl, rfl⟩
  · split at hu
    · rename_i r hext
      rw [List.mem_singleton.mp hu]
      obtain ⟨tip, ht, hh, ha⟩ := connectTip_extend hext
      exact .inr ⟨u.chain, tip, r, List.prefix_refl _, ht, hh, ha, rfl, by simp, by simp⟩
    · rename_i r fork hre
      rcases List.mem_cons.mp hu with rfl | hu
      · obtain ⟨pre, tip, hpre, ht, hh, ha, rfl⟩ := connectTip_reorg hre
        exact .inr ⟨pre, tip, r, hpre, ht, hh, ha, rfl, by simp, by simp⟩
      · rw [List.mem_singleton.mp hu]
        exact .inl ⟨rfl, rfl⟩
    · rw [List.mem_singleton.mp hu]
      exact .inl ⟨rfl, rfl⟩

theorem step_tip (p : Params) (header : Header) {t : BlockRecord} (ht : u.chain.tip? = some t) :
    (∃ u' ∈ u.step p header, u'.chain.tip? = some t) ∨
      ∃ u' ∈ u.step p header, ∃ r ∈ u'.connected, r.prevHash = t.hash := by
  unfold step
  split
  · exact .inl ⟨u, by simp, ht⟩
  · split
    · rename_i r hext
      obtain ⟨tip, htip, -, ha⟩ := connectTip_extend hext
      rw [ht, Option.some.injEq] at htip
      subst htip
      exact .inr ⟨_, List.mem_singleton_self _, r, by simp, ha.prev_eq⟩
    · exact .inl ⟨u, by simp, ht⟩
    · exact .inl ⟨_, List.mem_singleton_self _, ht⟩

theorem tip_of_mem_connected {r : BlockRecord} (hu : u' ∈ u.step p header)
    (hr : r ∈ u'.connected) (hnew : r ∉ u.connected) : u'.chain.tip? = some r := by
  rcases mem_step hu with ⟨-, hc⟩ | ⟨pre, tip, r', -, -, -, -, hch, -, hsub⟩
  · exact absurd (hc ▸ hr) hnew
  · rcases hsub r hr with hold | rfl
    · exact absurd hold hnew
    · rw [hch, Chain.tip?_push]

theorem exists_step_connected (p : Params) (header : Header) {r : BlockRecord}
    (hr : r ∈ u.connected) :
    ∃ u' ∈ u.step p header, r ∈ u'.connected := by
  unfold step
  split
  · exact ⟨u, by simp, hr⟩
  · split
    · exact ⟨_, List.mem_singleton_self _, List.mem_append_left _ hr⟩
    · exact ⟨u, by simp, hr⟩
    · exact ⟨_, List.mem_singleton_self _, hr⟩

def allConnected (us : List ChainUpdate) : List BlockRecord := us.flatMap (·.connected)

@[simp] theorem allConnected_start (cs : List Chain) : allConnected (cs.map start) = [] := by
  simp [allConnected, start]

theorem mem_allConnected_step {us : List ChainUpdate} {x : BlockRecord}
    (hx : x ∈ allConnected (us.flatMap (step p header))) :
    x ∈ allConnected us ∨
      x.header = header ∧ ∃ u ∈ us, ∃ tip ∈ u.chain.records, Accepted p tip x := by
  simp only [allConnected, List.mem_flatMap] at hx ⊢
  obtain ⟨u', ⟨u, hu, hu'⟩, hx⟩ := hx
  rcases mem_step hu' with ⟨-, hc⟩ | ⟨pre, tip, r, hpre, ht, hh, ha, -, -, hsub⟩
  · exact .inl ⟨u, hu, hc ▸ hx⟩
  · rcases hsub x hx with hold | rfl
    · exact .inl ⟨u, hu, hold⟩
    · exact .inr ⟨hh, u, hu, tip, hpre.subset (List.mem_of_getLast? ht), ha⟩

theorem allConnected_step_of_mem {us : List ChainUpdate} {x : BlockRecord}
    (hx : x ∈ allConnected us) : x ∈ allConnected (us.flatMap (step p header)) := by
  simp only [allConnected, List.mem_flatMap] at hx ⊢
  obtain ⟨u, hu, hx⟩ := hx
  obtain ⟨u', hu', hx'⟩ := exists_step_connected p header hx
  exact ⟨u', ⟨u, hu, hu'⟩, hx'⟩

end ChainUpdate

open ChainUpdate

section Run

variable {p : Params} {base : List BlockRecord}

/-- What connecting a run of headers keeps true of the candidates, for the records `base` known
before the run and the headers `done` connected so far: candidates are linked and made of known
records, each gained record is the record of a done header on a known record, and no two known
records share a hash. -/
structure UpdatesValid (p : Params) (base : List BlockRecord) (done : List Header)
    (us : List ChainUpdate) : Prop where
  linked : ∀ u ∈ us, Linked u.chain.records
  known : ∀ u ∈ us, ∀ r ∈ u.chain.records, r ∈ base ∨ r ∈ allConnected us
  accepted : ∀ r ∈ allConnected us,
    r.header ∈ done ∧ ∃ q, (q ∈ base ∨ q ∈ allConnected us) ∧ Accepted p q r
  consistent : ∀ a b, a ∈ base ∨ a ∈ allConnected us → b ∈ base ∨ b ∈ allConnected us →
    a.hash = b.hash → a = b

theorem UpdatesValid.start {cs : List Chain} (hl : ∀ c ∈ cs, Linked c.records)
    (hk : ∀ c ∈ cs, ∀ r ∈ c.records, r ∈ base)
    (hu : ∀ a ∈ base, ∀ b ∈ base, a.hash = b.hash → a = b) :
    UpdatesValid p base [] (cs.map ChainUpdate.start) where
  linked u hu' := by
    obtain ⟨c, hc, rfl⟩ := List.mem_map.mp hu'
    exact hl c hc
  known u hu' r hr := by
    obtain ⟨c, hc, rfl⟩ := List.mem_map.mp hu'
    exact .inl (hk c hc r hr)
  accepted r hr := by simp at hr
  consistent a b ha hb := by
    simp only [allConnected_start, List.not_mem_nil, or_false] at ha hb
    exact hu a ha b hb

theorem UpdatesValid.step {done : List Header} {us : List ChainUpdate} {header : Header}
    (hv : UpdatesValid p base done us) (hbase : ∀ r ∈ base, r.hash ≠ header.hash)
    (hdone : ∀ h ∈ done, h.hash ≠ header.hash) :
    UpdatesValid p base (done ++ [header]) (us.flatMap (ChainUpdate.step p header)) := by
  set us' := us.flatMap (ChainUpdate.step p header)
  have mono : ∀ x, x ∈ base ∨ x ∈ allConnected us → x ∈ base ∨ x ∈ allConnected us' :=
    fun x hx => hx.imp_right allConnected_step_of_mem
  -- a record known now was known before, or is the header's record on a record known before
  have cases : ∀ x, x ∈ base ∨ x ∈ allConnected us' → (x ∈ base ∨ x ∈ allConnected us) ∨
      x.header = header ∧ ∃ q, (q ∈ base ∨ q ∈ allConnected us) ∧ Accepted p q x := by
    rintro x (hx | hx)
    · exact .inl (.inl hx)
    rcases mem_allConnected_step hx with hx | ⟨hh, u, hu, tip, ht, ha⟩
    · exact .inl (.inr hx)
    · exact .inr ⟨hh, tip, hv.known u hu tip ht, ha⟩
  have old_hash : ∀ x, x ∈ base ∨ x ∈ allConnected us → x.hash ≠ header.hash := by
    rintro x (hx | hx)
    · exact hbase x hx
    · rw [x.hash_eq]
      exact hdone _ (hv.accepted x hx).1
  constructor
  · intro u' hu'
    obtain ⟨u, hu, hu'⟩ := List.mem_flatMap.mp hu'
    rcases mem_step hu' with ⟨hc, -⟩ | ⟨pre, tip, r, hpre, ht, -, ha, hc, -⟩
    · exact hc ▸ hv.linked u hu
    · exact hc ▸ Chain.linked_push (Linked.of_isPrefix (hv.linked u hu) hpre) ht ha.follows
  · intro u' hu' x hx
    obtain ⟨u, hu, hu'⟩ := List.mem_flatMap.mp hu'
    rcases mem_step hu' with ⟨hc, -⟩ | ⟨pre, tip, r, hpre, -, -, -, hc, hr, -⟩
    · exact mono x (hv.known u hu x (hc ▸ hx))
    · rw [hc, Chain.push_records, List.mem_append, List.mem_singleton] at hx
      rcases hx with hx | rfl
      · exact mono x (hv.known u hu x (hpre.subset hx))
      · exact .inr (List.mem_flatMap.mpr ⟨u', List.mem_flatMap.mpr ⟨u, hu, hu'⟩, hr⟩)
  · intro x hx
    rcases mem_allConnected_step hx with hx | ⟨hh, u, hu, tip, ht, ha⟩
    · obtain ⟨hd, q, hq, ha⟩ := hv.accepted x hx
      exact ⟨List.mem_append_left _ hd, q, mono q hq, ha⟩
    · exact ⟨hh ▸ List.mem_append_right _ (List.mem_singleton_self _), tip,
        mono tip (hv.known u hu tip ht), ha⟩
  · intro a b ha hb hab
    rcases cases a ha with ha | ⟨hha, qa, hqa, haa⟩ <;> rcases cases b hb with hb | ⟨hhb, qb, hqb, hab'⟩
    · exact hv.consistent a b ha hb hab
    · exact absurd (hab.trans (hhb ▸ b.hash_eq)) (old_hash a ha)
    · exact absurd (hab.symm.trans (hha ▸ a.hash_eq)) (old_hash b hb)
    · -- two records of the header sit on records with its parent's hash, so on the same one
      have hq : qa = qb := hv.consistent qa qb hqa hqb (by
        rw [← haa.prev_eq, ← hab'.prev_eq]
        simp only [BlockRecord.prevHash, hha, hhb])
      rw [haa.eq_child, hab'.eq_child, hq, hha, hhb]

theorem UpdatesValid.foldl : ∀ (hs done : List Header) (us : List ChainUpdate),
    UpdatesValid p base done us → (hs.map (·.hash)).Nodup →
    (∀ h ∈ hs, ∀ r ∈ base, r.hash ≠ h.hash) → (∀ h ∈ hs, ∀ d ∈ done, d.hash ≠ h.hash) →
    UpdatesValid p base (done ++ hs) (hs.foldl (fun us h => us.flatMap (ChainUpdate.step p h)) us)
  | [], done, us, hv, _, _, _ => by simpa using hv
  | h :: hs, done, us, hv, hnd, hbase, hdone => by
    rw [List.map_cons, List.nodup_cons] at hnd
    have hv' := hv.step (hbase h (List.mem_cons_self ..)) (hdone h (List.mem_cons_self ..))
    have hrest := UpdatesValid.foldl hs (done ++ [h]) _ hv' hnd.2
      (fun h' hh' => hbase h' (List.mem_cons_of_mem _ hh'))
      (fun h' hh' d hd => by
        rcases List.mem_append.mp hd with hd | hd
        · exact hdone h' (List.mem_cons_of_mem _ hh') d hd
        · rw [List.mem_singleton.mp hd]
          exact fun he => hnd.1 (List.mem_map.mpr ⟨h', hh', he.symm⟩))
    simpa using hrest

theorem connectHeaders_valid {hs : List Header} {cs : List Chain}
    (hl : ∀ c ∈ cs, Linked c.records) (hk : ∀ c ∈ cs, ∀ r ∈ c.records, r ∈ base)
    (hu : ∀ a ∈ base, ∀ b ∈ base, a.hash = b.hash → a = b) (hnd : (hs.map (·.hash)).Nodup)
    (hnew : ∀ h ∈ hs, ∀ r ∈ base, r.hash ≠ h.hash) :
    UpdatesValid p base hs (connectHeaders hs cs p) := by
  simpa [connectHeaders] using UpdatesValid.foldl hs [] _ (UpdatesValid.start hl hk hu) hnd hnew (by simp)

/-- Every record meeting `T` or gained is still the tip of a candidate, or some gained record
builds on it. -/
def TipsOpen (T : BlockRecord → Prop) (us : List ChainUpdate) : Prop :=
  ∀ t, T t ∨ t ∈ allConnected us →
    (∃ u ∈ us, u.chain.tip? = some t) ∨ ∃ r ∈ allConnected us, r.prevHash = t.hash

theorem TipsOpen.step {T : BlockRecord → Prop} {us : List ChainUpdate} {header : Header}
    (ho : TipsOpen T us) : TipsOpen T (us.flatMap (ChainUpdate.step p header)) := by
  intro t ht
  -- a record gained at this header is the tip of the candidate that gained it
  by_cases hnew : t ∈ allConnected (us.flatMap (ChainUpdate.step p header)) ∧ t ∉ allConnected us
  · obtain ⟨hin, hout⟩ := hnew
    obtain ⟨u', hu', hr⟩ := List.mem_flatMap.mp hin
    obtain ⟨u, hu, hstep⟩ := List.mem_flatMap.mp hu'
    have hold : t ∉ u.connected := fun h => hout (List.mem_flatMap.mpr ⟨u, hu, h⟩)
    exact .inl ⟨u', hu', ChainUpdate.tip_of_mem_connected hstep hr hold⟩
  have ht' : T t ∨ t ∈ allConnected us := by
    rcases ht with ht | ht
    · exact .inl ht
    · exact .inr (by simpa [ht] using hnew)
  rcases ho t ht' with ⟨u, hu, htip⟩ | ⟨r, hr, hprev⟩
  · rcases ChainUpdate.step_tip p header htip with
      ⟨u', hu', htip'⟩ | ⟨u', hu', r, hr, hprev⟩
    · exact .inl ⟨u', List.mem_flatMap.mpr ⟨u, hu, hu'⟩, htip'⟩
    · exact .inr ⟨r, List.mem_flatMap.mpr ⟨u', List.mem_flatMap.mpr ⟨u, hu, hu'⟩, hr⟩, hprev⟩
  · exact .inr ⟨r, allConnected_step_of_mem hr, hprev⟩

theorem connectHeaders_tipsOpen (hs : List Header) (cs : List Chain) :
    TipsOpen (fun t => ∃ c ∈ cs, c.tip? = some t) (connectHeaders hs cs p) := by
  unfold connectHeaders
  -- the fold keeps `TipsOpen`, which holds of the starting candidates
  suffices h : ∀ us, TipsOpen (fun t => ∃ c ∈ cs, c.tip? = some t) us →
      TipsOpen (fun t => ∃ c ∈ cs, c.tip? = some t)
        (hs.foldl (fun us h => us.flatMap (ChainUpdate.step p h)) us) by
    refine h _ fun t ht => ?_
    rcases ht with ⟨c, hc, htip⟩ | ht
    · exact .inl ⟨ChainUpdate.start c, List.mem_map_of_mem hc, htip⟩
    · simp at ht
  induction hs with
  | nil => exact fun us ho => ho
  | cons h hs ih => exact fun us ho => ih _ ho.step

end Run

end BitcoinLight
