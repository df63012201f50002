import BitcoinLight.Proofs.Chains

set_option autoImplicit false

/-!
# Walking back from a tip

The chains read from the store are built by walking back from a tip through a look-up by hash:
each step takes the record that the oldest one names as its parent, provided that record is one
height below, and the walk stops at genesis, at a parent the look-up lacks or at one at the wrong
height, or when it holds as many records as asked. The walk ends on every input, whatever the
length asked: each step goes one height down, so it takes at most as many steps as the tip's
height (`ancestorCount_le_height`).

When the look-up finds records by their own hashes, the walk gives a linked chain ending at the
tip whose other records all come from the look-up. It is as long as asked unless the tip has
fewer consecutive ancestors in the look-up; it then holds the tip and all of them, and its oldest
record is one the walk cannot step back from.
-/

namespace BitcoinLight.Chain

variable {lookup : Hash256 → Option BlockRecord}

def ParentStep (lookup : Hash256 → Option BlockRecord) (r p : BlockRecord) : Prop :=
  r.height ≠ 0 ∧ lookup r.prevHash = some p ∧ p.height + 1 = r.height

/-- The number of consecutive ancestors of `r` in the look-up: the steps a walk back with no
limit takes from `r`. Each step goes one height down, so the count ends. -/
def ancestorCount (lookup : Hash256 → Option BlockRecord) (r : BlockRecord) : Nat :=
  if r.height = 0 then 0
  else match lookup r.prevHash with
    | some p => if h : p.height + 1 = r.height then ancestorCount lookup p + 1 else 0
    | none => 0
termination_by r.height
decreasing_by omega

theorem ancestorCount_of_step {r p : BlockRecord} (h : ParentStep lookup r p) :
    ancestorCount lookup r = ancestorCount lookup p + 1 := by
  obtain ⟨h0, hp, hh⟩ := h
  rw [ancestorCount, if_neg h0, hp]
  simp only [hh, ↓reduceDIte]

theorem ancestorCount_of_stop {r : BlockRecord} (h : ∀ p, ¬ ParentStep lookup r p) :
    ancestorCount lookup r = 0 := by
  rw [ancestorCount]
  split
  · rfl
  · rename_i h0
    split
    · rename_i p hp
      rw [dif_neg fun hh => h p ⟨h0, hp, hh⟩]
    · rfl

theorem ancestorCount_le_height (r : BlockRecord) : ancestorCount lookup r ≤ r.height := by
  induction hn : r.height using Nat.strong_induction_on generalizing r with
  | _ n ih =>
    by_cases hs : ∃ p, ParentStep lookup r p
    · obtain ⟨p, hp⟩ := hs
      have := ih p.height (by have := hp.2.2; omega) p rfl
      rw [ancestorCount_of_step hp]
      have := hp.2.2
      omega
    · rw [ancestorCount_of_stop (not_exists.mp hs)]
      omega

theorem walkFrom_step {r p : BlockRecord} (h : ParentStep lookup r p) (fuel : Nat)
    (acc : List BlockRecord) : walkFrom lookup (fuel + 1) r acc = walkFrom lookup fuel p (p :: acc) := by
  obtain ⟨h0, hp, hh⟩ := h
  rw [walkFrom, if_neg h0, hp]
  simp only [hh, ↓reduceIte]

theorem walkFrom_stop {r : BlockRecord} (h : ∀ p, ¬ ParentStep lookup r p) (fuel : Nat)
    (acc : List BlockRecord) : walkFrom lookup fuel r acc = acc := by
  cases fuel with
  | zero => rfl
  | succ fuel =>
    rw [walkFrom]
    split
    · rfl
    · rename_i h0
      split
      · rename_i p hp
        rw [if_neg fun hh => h p ⟨h0, hp, hh⟩]
      · rfl

theorem walkFrom_length_eq_min (fuel : Nat) (r : BlockRecord) (acc : List BlockRecord) :
    (walkFrom lookup fuel r acc).length = acc.length + min fuel (ancestorCount lookup r) := by
  induction fuel generalizing r acc with
  | zero => simp [walkFrom]
  | succ fuel ih =>
    by_cases hs : ∃ p, ParentStep lookup r p
    · obtain ⟨p, hp⟩ := hs
      rw [walkFrom_step hp, ih, ancestorCount_of_step hp, List.length_cons]
      omega
    · rw [walkFrom_stop (not_exists.mp hs), ancestorCount_of_stop (not_exists.mp hs)]
      simp

theorem walkFrom_stops (fuel : Nat) (r : BlockRecord) (rest : List BlockRecord)
    (hc : ancestorCount lookup r < fuel) :
    ∃ first pre, walkFrom lookup fuel r (r :: rest) = first :: pre ∧
      ∀ p, ¬ ParentStep lookup first p := by
  induction fuel generalizing r rest with
  | zero => omega
  | succ fuel ih =>
    by_cases hs : ∃ p, ParentStep lookup r p
    · obtain ⟨p, hp⟩ := hs
      rw [walkFrom_step hp]
      exact ih p (r :: rest) (by rw [ancestorCount_of_step hp] at hc; omega)
    · exact ⟨r, rest, walkFrom_stop (not_exists.mp hs) _ _, not_exists.mp hs⟩

theorem not_parentStep_iff {r : BlockRecord} :
    (∀ p, ¬ ParentStep lookup r p) ↔ r.height = 0 ∨ lookup r.prevHash = none ∨
      ∃ p, lookup r.prevHash = some p ∧ p.height + 1 ≠ r.height := by
  simp only [ParentStep, not_and]
  rcases lookup r.prevHash with _ | p
  · simp
  · by_cases h0 : r.height = 0 <;> simp [h0]

theorem walkBack_records (tip : BlockRecord) (maxLen : Nat) :
    (walkBack tip lookup maxLen).records = walkFrom lookup (maxLen - 1) tip [tip] :=
  rfl

theorem walkBack_length (tip : BlockRecord) (maxLen : Nat) :
    (walkBack tip lookup maxLen).length = 1 + min (maxLen - 1) (ancestorCount lookup tip) := by
  rw [length, walkBack_records, walkFrom_length_eq_min, List.length_singleton]

theorem walk_back_follows_ancestors (tip : BlockRecord) (lookup : Hash256 → Option BlockRecord)
    (maxLen : Nat) (hl : ∀ h r, lookup h = some r → r.hash = h) :
    ∃ pre first, (walkBack tip lookup maxLen).records = pre ++ [tip] ∧
      (pre ++ [tip]).head? = some first ∧ Linked (pre ++ [tip]) ∧
      (∀ r ∈ pre, lookup r.hash = some r) ∧
      1 ≤ (walkBack tip lookup maxLen).length ∧
      (walkBack tip lookup maxLen).length ≤ max 1 maxLen ∧
      (walkBack tip lookup maxLen).length ≤ tip.height + 1 ∧
      ((walkBack tip lookup maxLen).length < maxLen →
        (first.height = 0 ∨ lookup first.prevHash = none ∨
          ∃ p, lookup first.prevHash = some p ∧ p.height + 1 ≠ first.height) ∧
        (walkBack tip lookup maxLen).length = ancestorCount lookup tip + 1) := by
  -- a record the look-up finds is found again by its own hash
  have hfound : ∀ h r, lookup h = some r → r.hash = h ∧ lookup r.hash = some r :=
    fun h r hr => ⟨hl h r hr, by rw [hl h r hr]; exact hr⟩
  obtain ⟨pre, hrec, hlink, hpre⟩ := walkBack_spec hfound tip maxLen
  obtain ⟨first, hfirst⟩ : ∃ first, (pre ++ [tip]).head? = some first :=
    Option.isSome_iff_exists.mp (by simp)
  have hlen : (walkBack tip lookup maxLen).length =
      1 + min (maxLen - 1) (ancestorCount lookup tip) := walkBack_length tip maxLen
  have hheight : ancestorCount lookup tip ≤ tip.height := ancestorCount_le_height tip
  refine ⟨pre, first, hrec, hfirst, hlink, hpre, by omega, by omega, by omega, fun hlt => ?_⟩
  -- stopping early means the walk ran out of ancestors, not of fuel
  obtain ⟨first', pre', hwalk, hstop⟩ :=
    walkFrom_stops (maxLen - 1) tip [] (show ancestorCount lookup tip < maxLen - 1 by omega)
  have hsame : first' = first := by
    have h1 : (walkBack tip lookup maxLen).records.head? = some first' := by
      rw [walkBack_records, hwalk]; rfl
    rw [hrec, hfirst] at h1
    exact (Option.some.inj h1).symm
  subst hsame
  exact ⟨not_parentStep_iff.mp hstop, by omega⟩

def sampleParent : BlockRecord := BlockRecord.new ⟨1, Hash256.zero, Hash256.zero, 0, 0x207fffff, 0⟩ 0 2

def sampleChild : BlockRecord :=
  BlockRecord.new ⟨1, sampleParent.hash, Hash256.zero, 600, 0x207fffff, 0⟩ 1 4

def sampleLookup (h : Hash256) : Option BlockRecord :=
  if h = sampleParent.hash then some sampleParent else none

/-- Walking back from the child with room for five records stops at genesis after one step. -/
theorem sampleChild_walk_back :
    (∀ h r, sampleLookup h = some r → r.hash = h) ∧
      (walkBack sampleChild sampleLookup 5).records = [sampleParent, sampleChild] ∧
      (walkBack sampleChild sampleLookup 5).length = ancestorCount sampleLookup sampleChild + 1 := by
  have hl : ∀ h r, sampleLookup h = some r → r.hash = h := by
    intro h r hr
    unfold sampleLookup at hr
    split at hr
    · cases hr
      rename_i he
      exact he.symm
    · cases hr
  -- the child's parent hash is the parent's hash as written, so nothing is hashed
  have hlook : sampleLookup sampleChild.prevHash = some sampleParent := if_pos rfl
  have hstep : ParentStep sampleLookup sampleChild sampleParent :=
    ⟨Nat.one_ne_zero, hlook, rfl⟩
  have hgenesis : ∀ p, ¬ ParentStep sampleLookup sampleParent p := fun _ h => h.1 rfl
  have hrec : (walkBack sampleChild sampleLookup 5).records = [sampleParent, sampleChild] := by
    rw [walkBack_records, show 5 - 1 = 3 + 1 from rfl, walkFrom_step hstep, walkFrom_stop hgenesis]
  obtain ⟨_, _, -, -, -, -, -, -, -, hstop⟩ :=
    walk_back_follows_ancestors sampleChild sampleLookup 5 hl
  exact ⟨hl, hrec, (hstop (by simp [length, hrec])).2⟩

end BitcoinLight.Chain
