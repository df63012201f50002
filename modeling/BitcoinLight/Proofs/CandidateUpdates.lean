import BitcoinLight.Proofs.Connect

set_option autoImplicit false

/-!
# What happens to each candidate in a run of headers

Connecting a run of headers to candidate chains keeps each candidate's chain linked, and the
records a candidate gains are the end of its chain, in the order of their headers, each the record
the tip check gave its header on the chain before it (`CandidateSound`). No candidate is lost:
each starting chain is still there with the records it gained appended. A candidate that rejects
a header keeps the chain and records it had before that header and is carried unchanged to the
end. And the run ends with one candidate per starting chain and one more per fork.

The proofs go by induction on the run from its end, since the run after one more header is the
old candidates, each stepped by that header (`connectHeaders_concat`).
-/

namespace BitcoinLight

def Extension.isReorg : Extension → Bool
  | .reorg _ _ => true
  | _ => false

theorem connectHeaders_concat (hs : List Header) (h : Header) (cs : List Chain) (p : Params) :
    connectHeaders (hs ++ [h]) cs p = (connectHeaders hs cs p).flatMap (ChainUpdate.step p h) := by
  simp [connectHeaders, List.foldl_append]

@[simp] theorem connectHeaders_nil (cs : List Chain) (p : Params) :
    connectHeaders [] cs p = cs.map ChainUpdate.start := rfl

/-! ## Connecting one header -/

section Tip

variable {header : Header} {c fork : Chain} {p : Params} {r : BlockRecord}

theorem connectTip_extend_check (h : connectTip header c p = .extend r) :
    checkNewTip header c p = .connected r := by
  rw [connectTip_eq] at h
  split at h
  · split at h
    · rename_i hc
      cases h
      exact hc
    · cases h
  · split at h
    · cases h
    · split at h <;> cases h

theorem connectTip_reorg_check (h : connectTip header c p = .reorg r fork) :
    ∃ pre, c.prefixThrough header.prevHash = some pre ∧ checkNewTip header pre p = .connected r ∧
      fork = pre.push r := by
  rw [connectTip_eq] at h
  split at h
  · split at h <;> cases h
  · split at h
    · cases h
    · rename_i pre hpre
      split at h
      · rename_i hc
        cases h
        exact ⟨pre, hpre, hc, rfl⟩
      · cases h

end Tip

namespace ChainUpdate

variable {p : Params} {header : Header} {u u' : ChainUpdate}

theorem mem_step_cases (hu : u' ∈ u.step p header) :
    u' = u ∨
      (u.failure = none ∧ ∃ r, connectTip header u.chain p = .extend r ∧
        u' = ⟨u.chain.push r, u.connected ++ [r], none⟩) ∨
      (u.failure = none ∧ ∃ r fork, connectTip header u.chain p = .reorg r fork ∧
        u' = ⟨fork, [r], none⟩) ∨
      (u.failure = none ∧ ∃ f, connectTip header u.chain p = .rejected f ∧
        u' = ⟨u.chain, u.connected, some (header, f)⟩) := by
  unfold step at hu
  split at hu
  · exact .inl (List.mem_singleton.mp hu)
  · rename_i hf
    split at hu
    · rename_i r hext
      exact .inr (.inl ⟨hf, r, hext, List.mem_singleton.mp hu⟩)
    · rename_i r fork hre
      rcases List.mem_cons.mp hu with rfl | hu
      · exact .inr (.inr (.inl ⟨hf, r, fork, hre, rfl⟩))
      · exact .inl (List.mem_singleton.mp hu)
    · rename_i f hrej
      exact .inr (.inr (.inr ⟨hf, f, hrej, List.mem_singleton.mp hu⟩))

theorem exists_step_lineage (p : Params) (header : Header) (u : ChainUpdate) :
    ∃ u' ∈ u.step p header, ∃ rs, u'.chain.records = u.chain.records ++ rs ∧
      u'.connected = u.connected ++ rs := by
  unfold step
  split
  · exact ⟨u, by simp, [], by simp, by simp⟩
  · split
    · rename_i r _
      exact ⟨_, List.mem_singleton_self _, [r], rfl, rfl⟩
    · exact ⟨u, by simp, [], by simp, by simp⟩
    · exact ⟨_, List.mem_singleton_self _, [], by simp, by simp⟩

theorem length_step (p : Params) (header : Header) (u : ChainUpdate) :
    (u.step p header).length =
      if u.failure.isNone && (connectTip header u.chain p).isReorg then 2 else 1 := by
  unfold step
  split
  · rename_i hf
    simp [hf]
  · rename_i hf
    split <;> simp [Extension.isReorg, *]

end ChainUpdate

/-! ## Records gained on the chain before them -/

/-- Each record of the list is the record the tip check gives its header on `base` followed by
the records before it. -/
def GrownFrom (p : Params) (base : List BlockRecord) : List BlockRecord → Prop
  | [] => True
  | r :: rs => checkNewTip r.header ⟨base⟩ p = .connected r ∧ GrownFrom p (base ++ [r]) rs

section Grown

variable {p : Params}

theorem GrownFrom.concat : ∀ {base rs : List BlockRecord} {r : BlockRecord}, GrownFrom p base rs →
    checkNewTip r.header ⟨base ++ rs⟩ p = .connected r → GrownFrom p base (rs ++ [r])
  | base, [], r, _, hr => ⟨by simpa using hr, trivial⟩
  | base, x :: rs, r, ⟨hx, hrest⟩, hr =>
    ⟨hx, GrownFrom.concat hrest (by simpa using hr)⟩

theorem GrownFrom.check : ∀ {base xs ys : List BlockRecord} {s : BlockRecord},
    GrownFrom p base (xs ++ s :: ys) → checkNewTip s.header ⟨base ++ xs⟩ p = .connected s
  | base, [], ys, s, h => by simpa using h.1
  | base, x :: xs, ys, s, h => by simpa using GrownFrom.check h.2

end Grown

/-- What each candidate keeps while a run of headers is connected, for the headers `done`
applied so far: its chain is linked and ends with the records it gained, those follow the order of
their headers in `done`, and each is the record the tip check gave its header on the chain before
it. -/
structure CandidateSound (p : Params) (done : List Header) (u : ChainUpdate) : Prop where
  linked : Linked u.chain.records
  order : (u.connected.map (·.header)).Sublist done
  grown : ∃ pre, u.chain.records = pre ++ u.connected ∧ GrownFrom p pre u.connected

namespace CandidateSound

variable {p : Params} {done : List Header} {header : Header} {u u' : ChainUpdate}

theorem start {c : Chain} (hc : Linked c.records) : CandidateSound p [] (ChainUpdate.start c) :=
  ⟨hc, by simp [ChainUpdate.start], c.records, by simp [ChainUpdate.start], trivial⟩

theorem same (h : CandidateSound p done u) : CandidateSound p (done ++ [header]) u :=
  ⟨h.linked, h.order.trans (List.sublist_append_left _ _), h.grown⟩

theorem step (h : CandidateSound p done u) (hu : u' ∈ u.step p header) :
    CandidateSound p (done ++ [header]) u' := by
  obtain ⟨pre, hrec, hgrown⟩ := h.grown
  rcases ChainUpdate.mem_step_cases hu with rfl | ⟨-, r, hext, rfl⟩ | ⟨-, r, fork, hre, rfl⟩ |
    ⟨-, f, -, rfl⟩
  · exact h.same
  · -- the header's record extends the tip
    have hc := connectTip_extend_check hext
    obtain ⟨tip, htip, hhd, ha⟩ := checkNewTip_connected hc
    refine ⟨Chain.linked_push h.linked htip ha.follows, ?_, pre, ?_, ?_⟩
    · simpa [hhd] using h.order.append (List.Sublist.refl [header])
    · simp [hrec]
    · refine hgrown.concat ?_
      rw [hhd, ← hrec]
      exact hc
  · -- the fork: the chain cut after the parent, with the header's record
    obtain ⟨cut, hcut, hc, rfl⟩ := connectTip_reorg_check hre
    obtain ⟨tip, htip, hhd, ha⟩ := checkNewTip_connected hc
    refine ⟨Chain.linked_push (Chain.linked_prefixThrough h.linked hcut) htip ha.follows, ?_,
      cut.records, by simp, ⟨by rw [hhd]; exact hc, trivial⟩⟩
    simp [hhd]
  · -- frozen: only the failure changes, which soundness does not read
    exact ⟨h.linked, h.same.order, h.grown⟩

end CandidateSound

theorem connectHeaders_sound {cs : List Chain} {p : Params} (hcs : ∀ c ∈ cs, Linked c.records) :
    ∀ (hs : List Header), ∀ u ∈ connectHeaders hs cs p, CandidateSound p hs u := by
  intro hs
  induction hs using List.reverseRecOn with
  | nil =>
    intro u hu
    obtain ⟨c, hc, rfl⟩ := List.mem_map.mp hu
    exact CandidateSound.start (hcs c hc)
  | append_singleton hs header ih =>
    intro u' hu'
    rw [connectHeaders_concat] at hu'
    obtain ⟨u, hu, hstep⟩ := List.mem_flatMap.mp hu'
    exact (ih u hu).step hstep

/-- Connecting a run of headers to linked chains keeps every candidate's chain linked. The
records a candidate gained end its chain, in the order their headers come in the run, and each is
the child of the record before it, as the tip check gave it on the chain up to that record: one
higher, with the header's work added. -/
theorem connectHeaders_keeps_chains_valid {cs : List Chain} (hs : List Header) (p : Params)
    (hcs : ∀ c ∈ cs, Linked c.records) :
    ∀ u ∈ connectHeaders hs cs p,
      Linked u.chain.records ∧ (u.connected.map (·.header)).Sublist hs ∧
      ∃ pre, u.chain.records = pre ++ u.connected ∧
        ∀ xs s ys, u.connected = xs ++ s :: ys →
          ∃ parent, (pre ++ xs).getLast? = some parent ∧ s = parent.child s.header ∧
            checkNewTip s.header ⟨pre ++ xs⟩ p = .connected s ∧
            s.height = parent.height + 1 ∧
            s.work = Work.addWork parent.work (Work.blockProof s.header.bits) := by
  intro u hu
  have hsound := connectHeaders_sound hcs hs u hu
  obtain ⟨pre, hrec, hgrown⟩ := hsound.grown
  refine ⟨hsound.linked, hsound.order, pre, hrec, fun xs s ys hsplit => ?_⟩
  have hc := GrownFrom.check (hsplit ▸ hgrown)
  obtain ⟨parent, hparent, -, ha⟩ := checkNewTip_connected hc
  exact ⟨parent, hparent, ha.eq_child, hc, ha.height_eq, ha.work_eq⟩

/-! ## Lineage, failures and forks -/

section Lineage

variable {p : Params}

theorem connectHeaders_lineage (cs : List Chain) (p : Params) :
    ∀ (hs : List Header), ∀ c ∈ cs, ∃ u ∈ connectHeaders hs cs p,
      u.chain.records = c.records ++ u.connected := by
  intro hs
  induction hs using List.reverseRecOn with
  | nil =>
    intro c hc
    exact ⟨ChainUpdate.start c, List.mem_map_of_mem hc, by simp [ChainUpdate.start]⟩
  | append_singleton hs header ih =>
    intro c hc
    obtain ⟨u, hu, hrec⟩ := ih c hc
    obtain ⟨u', hu', rs, hrec', hcon'⟩ := ChainUpdate.exists_step_lineage p header u
    refine ⟨u', ?_, by rw [hrec', hrec, hcon', List.append_assoc]⟩
    rw [connectHeaders_concat]
    exact List.mem_flatMap.mpr ⟨u, hu, hu'⟩

/-- A failed candidate failed at some header `h` of the run: just before it, the candidate had
not failed, had the same chain and records, and connecting `h` was rejected; from then on it is
carried unchanged through every later header. -/
theorem connectHeaders_failed (cs : List Chain) (p : Params) :
    ∀ (hs : List Header), ∀ u ∈ connectHeaders hs cs p, ∀ h f, u.failure = some (h, f) →
      ∃ hs₁ hs₂ v, hs = hs₁ ++ h :: hs₂ ∧ v ∈ connectHeaders hs₁ cs p ∧ v.failure = none ∧
        connectTip h v.chain p = .rejected f ∧ u = ⟨v.chain, v.connected, some (h, f)⟩ ∧
        ∀ k ≤ hs₂.length, u ∈ connectHeaders (hs₁ ++ h :: hs₂.take k) cs p := by
  intro hs
  induction hs using List.reverseRecOn with
  | nil =>
    intro u hu h f hf
    obtain ⟨c, -, rfl⟩ := List.mem_map.mp hu
    simp [ChainUpdate.start] at hf
  | append_singleton hs header ih =>
    intro u hu h f hf
    have hu' := hu
    rw [connectHeaders_concat] at hu'
    obtain ⟨w, hw, hstep⟩ := List.mem_flatMap.mp hu'
    rcases ChainUpdate.mem_step_cases hstep with rfl | ⟨-, r, -, rfl⟩ | ⟨-, r, fork, -, rfl⟩ |
      ⟨hwf, f', hrej, rfl⟩
    · -- already failed: the failure is older, and the candidate is carried once more
      obtain ⟨hs₁, hs₂, v, rfl, hv, hvf, hrej, rfl, hcarried⟩ := ih _ hw h f hf
      refine ⟨hs₁, hs₂ ++ [header], v, by simp, hv, hvf, hrej, rfl, fun k hk => ?_⟩
      rcases Nat.lt_or_ge k (hs₂.length + 1) with hk' | hk'
      · rw [List.take_append_of_le_length (by simpa using Nat.lt_succ_iff.mp hk')]
        exact hcarried k (Nat.lt_succ_iff.mp hk')
      · rw [List.take_of_length_le (by simpa using hk')]
        simpa using hu
    · simp at hf
    · simp at hf
    · -- it fails at this header
      simp only [Option.some.injEq, Prod.mk.injEq] at hf
      obtain ⟨rfl, rfl⟩ := hf
      refine ⟨hs, [], w, by simp, hw, hwf, hrej, rfl, fun k hk => ?_⟩
      simpa using hu

/-- The headers the run applies to candidates, each with the candidate it is applied to: every
candidate that has not failed before that header, in order. -/
def applications (p : Params) : List Header → List ChainUpdate → List (Header × ChainUpdate)
  | [], _ => []
  | h :: hs, us => (us.filter (·.failure.isNone)).map (fun u => (h, u)) ++
      applications p hs (us.flatMap (ChainUpdate.step p h))

theorem length_flatMap_step (h : Header) :
    ∀ us : List ChainUpdate, (us.flatMap (ChainUpdate.step p h)).length =
      us.length + (((us.filter (·.failure.isNone)).map (fun u => (h, u))).filter
        fun a => (connectTip a.1 a.2.chain p).isReorg).length
  | [] => rfl
  | u :: us => by
    rw [List.flatMap_cons, List.length_append, length_flatMap_step h us, ChainUpdate.length_step]
    by_cases hf : u.failure.isNone <;> by_cases hr : (connectTip h u.chain p).isReorg <;>
      simp [hf, hr] <;> omega

theorem length_foldl_step :
    ∀ (hs : List Header) (us : List ChainUpdate),
      (hs.foldl (fun us h => us.flatMap (ChainUpdate.step p h)) us).length =
        us.length + ((applications p hs us).filter
          fun a => (connectTip a.1 a.2.chain p).isReorg).length
  | [], us => by simp [applications]
  | h :: hs, us => by
    rw [List.foldl_cons, length_foldl_step hs, length_flatMap_step h, applications,
      List.filter_append, List.length_append]
    omega

end Lineage

/-- Connecting a run of headers loses no candidate and freezes failures. Every starting chain is
some candidate's chain with the records it gained appended. A candidate that failed at a header
had, just before that header, the same chain and records and had not failed, connecting the
header to it was rejected, and it is carried unchanged through every later header. And there is
one candidate per starting chain and one more per application of a header that forked. -/
theorem connectHeaders_keeps_candidates (hs : List Header) (cs : List Chain) (p : Params) :
    (∀ c ∈ cs, ∃ u ∈ connectHeaders hs cs p, u.chain.records = c.records ++ u.connected) ∧
    (∀ u ∈ connectHeaders hs cs p, ∀ h f, u.failure = some (h, f) →
      ∃ hs₁ hs₂ v, hs = hs₁ ++ h :: hs₂ ∧ v ∈ connectHeaders hs₁ cs p ∧ v.failure = none ∧
        connectTip h v.chain p = .rejected f ∧ u = ⟨v.chain, v.connected, some (h, f)⟩ ∧
        ∀ k ≤ hs₂.length, u ∈ connectHeaders (hs₁ ++ h :: hs₂.take k) cs p) ∧
    (connectHeaders hs cs p).length =
      cs.length + ((applications p hs (cs.map ChainUpdate.start)).filter
        fun a => (connectTip a.1 a.2.chain p).isReorg).length := by
  refine ⟨connectHeaders_lineage cs p hs, connectHeaders_failed cs p hs, ?_⟩
  rw [connectHeaders, length_foldl_step, List.length_map]

end BitcoinLight
