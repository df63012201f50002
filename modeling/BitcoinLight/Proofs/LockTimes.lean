import Mathlib
import BitcoinLight.Script.LockTime

set_option autoImplicit false

/-!
# Combining the lock times of spending scripts

`calcLockTime` folds the scripts' lock-time requirements from left to right and stops at the
first script it cannot read or at the first requirement of the other kind than the running
maximum. Read as a whole, the fold succeeds exactly when every script can be read and all the
lock times they require are heights or all are times; it then returns their maximum, or 0 when
no script requires one. That description does not mention the order of the scripts, so whether
the fold succeeds, and with which lock time, is the same for every order. Only which error it
reports can change with the order.
-/

namespace BitcoinLight.Script

def requiredLockTimes (scripts : List ByteArray) : List Nat :=
  scripts.filterMap fun s => (cltvRequirement s).toOption.join

def OnOneSide (ns : List Nat) : Prop :=
  (∀ n ∈ ns, n < lockTimeThreshold) ∨ (∀ n ∈ ns, lockTimeThreshold ≤ n)

@[simp] theorem requiredLockTimes_nil : requiredLockTimes [] = [] := rfl

theorem requiredLockTimes_cons_of_ok {s : ByteArray} {req : Option Nat}
    (h : cltvRequirement s = .ok req) (rest : List ByteArray) :
    requiredLockTimes (s :: rest) = req.toList ++ requiredLockTimes rest := by
  cases req <;> simp [requiredLockTimes, h, Except.toOption]

theorem sameLockKind_iff (a b : Nat) :
    sameLockKind a b = true ↔ (a < lockTimeThreshold ↔ b < lockTimeThreshold) := by
  simp [sameLockKind]

theorem onOneSide_toList (o : Option Nat) : OnOneSide o.toList := by
  cases o with
  | none => simp [OnOneSide]
  | some n => by_cases h : n < lockTimeThreshold <;> simp [OnOneSide, h]; omega

theorem OnOneSide.of_perm {ns ns' : List Nat} (hp : ns.Perm ns') (h : OnOneSide ns) :
    OnOneSide ns' := by
  rcases h with h | h
  · exact .inl fun n hn => h n (hp.mem_iff.mpr hn)
  · exact .inr fun n hn => h n (hp.mem_iff.mpr hn)

theorem onOneSide_max_cons {c x : Nat} (hcx : sameLockKind c x = true) (ns : List Nat) :
    OnOneSide (max c x :: ns) ↔ OnOneSide (c :: x :: ns) := by
  rw [sameLockKind_iff] at hcx
  simp only [OnOneSide, List.forall_mem_cons]
  constructor
  · rintro (⟨hm, hns⟩ | ⟨hm, hns⟩)
    · exact .inl ⟨by omega, by omega, hns⟩
    · exact .inr ⟨by omega, by omega, hns⟩
  · rintro (⟨hc, hx, hns⟩ | ⟨hc, hx, hns⟩)
    · exact .inl ⟨by omega, hns⟩
    · exact .inr ⟨by omega, hns⟩

theorem not_onOneSide_cons_cons {c x : Nat} (hcx : sameLockKind c x = false) (ns : List Nat) :
    ¬OnOneSide (c :: x :: ns) := by
  have hne : ¬(c < lockTimeThreshold ↔ x < lockTimeThreshold) := by
    rw [← sameLockKind_iff, hcx]
    simp
  simp only [OnOneSide, List.forall_mem_cons]
  omega

theorem max?_max_cons (c x : Nat) (ns : List Nat) :
    (max c x :: ns).max? = (c :: x :: ns).max? := by
  cases h : ns.max? <;> simp [h, Nat.max_assoc]

theorem max?_eq_of_perm {ns ns' : List Nat} (hp : ns.Perm ns') : ns.max? = ns'.max? :=
  Option.ext fun a => by simp only [List.max?_eq_some_iff, hp.mem_iff]

/-- The fold from a running maximum `acc`, read as a whole: it succeeds exactly when every script
can be read and the running maximum and all required lock times are of one kind, and it returns
the maximum of them all. -/
theorem combineLockTimes_eq_ok_iff (acc : Option Nat) (l : List ByteArray) (r : Option Nat) :
    combineLockTimes acc l = .ok r ↔ (∀ s ∈ l, ∃ req, cltvRequirement s = .ok req) ∧
      OnOneSide (acc.toList ++ requiredLockTimes l) ∧
        r = (acc.toList ++ requiredLockTimes l).max? := by
  induction l generalizing acc with
  | nil =>
    have hmax : acc.toList.max? = acc := by cases acc <;> simp
    simp only [combineLockTimes, Except.ok.injEq, requiredLockTimes_nil, List.append_nil, hmax,
      onOneSide_toList, List.not_mem_nil, false_implies, implies_true, true_and]
    exact eq_comm
  | cons s rest ih =>
    cases h : cltvRequirement s with
    | error e => simp [combineLockTimes, h]
    | ok req =>
      rw [requiredLockTimes_cons_of_ok h]
      cases req with
      | none => simpa [combineLockTimes, h] using ih acc
      | some x =>
        cases acc with
        | none => simpa [combineLockTimes, h] using ih (some x)
        | some c =>
          cases hcx : sameLockKind c x with
          | true =>
            simp only [combineLockTimes, h, hcx, if_true, ih, List.forall_mem_cons, Except.ok.injEq,
              exists_eq', true_and, Option.toList_some, List.cons_append, List.nil_append]
            rw [onOneSide_max_cons hcx, max?_max_cons]
          | false =>
            simp only [combineLockTimes, h, hcx, Bool.false_eq_true, if_false, reduceCtorEq,
              false_iff, Option.toList_some, List.cons_append, List.nil_append]
            exact fun ⟨_, hside, _⟩ => not_onOneSide_cons_cons hcx _ hside

theorem calcLockTime_eq_ok_iff (scripts : List ByteArray) (v : Nat) :
    calcLockTime scripts = .ok v ↔ (∀ s ∈ scripts, ∃ req, cltvRequirement s = .ok req) ∧
      OnOneSide (requiredLockTimes scripts) ∧ v = (requiredLockTimes scripts).max?.getD 0 := by
  have hfold := combineLockTimes_eq_ok_iff none scripts
  simp only [Option.toList_none, List.nil_append] at hfold
  unfold calcLockTime
  cases h : combineLockTimes none scripts with
  | error e =>
    simp only [Except.map, reduceCtorEq, false_iff]
    rintro ⟨hs, hside, -⟩
    exact absurd ((hfold _).mpr ⟨hs, hside, rfl⟩) (by simp [h])
  | ok r =>
    obtain ⟨hs, hside, rfl⟩ := (hfold r).mp h
    simp only [Except.map, Except.ok.injEq, hside, true_and]
    exact ⟨fun hv => ⟨hs, hv.symm⟩, fun hv => hv.2.symm⟩

theorem calcLockTime_toOption_eq_some (scripts : List ByteArray) (v : Nat) :
    (calcLockTime scripts).toOption = some v ↔ calcLockTime scripts = .ok v := by
  cases calcLockTime scripts <;> simp [Except.toOption]

/-- Lock-time combination: the fold succeeds exactly when every script can be read and all
required lock times are heights or all are times, and then returns their maximum (0 when there
are none); so its success and its value do not depend on the order of the scripts. -/
theorem lock_times_combine_to_maximum :
    (∀ (scripts : List ByteArray) (v : Nat), calcLockTime scripts = .ok v ↔
      (∀ s ∈ scripts, ∃ req, cltvRequirement s = .ok req) ∧ OnOneSide (requiredLockTimes scripts) ∧
        v = (requiredLockTimes scripts).max?.getD 0) ∧
    ∀ l l' : List ByteArray, l.Perm l' → (calcLockTime l).toOption = (calcLockTime l').toOption := by
  refine ⟨calcLockTime_eq_ok_iff, fun l l' hp => ?_⟩
  have hreq : (requiredLockTimes l).Perm (requiredLockTimes l') := hp.filterMap _
  refine Option.ext fun v => ?_
  simp only [calcLockTime_toOption_eq_some, calcLockTime_eq_ok_iff, hp.mem_iff,
    max?_eq_of_perm hreq]
  exact and_congr_right fun _ => and_congr_left fun _ => ⟨(·.of_perm hreq), (·.of_perm hreq.symm)⟩

def heightLock100 : ByteArray := ⟨#[0x01, 0x64, 0xb1, 0x75, 0xac]⟩

def timeLock500000010 : ByteArray := ⟨#[0x04, 0x0a, 0x65, 0xcd, 0x1d, 0xb1, 0x75]⟩

/-- A height lock, a plain `CHECKSIG` and a time lock give the same answer in two orders. -/
theorem mixedLocks_order_free :
    [heightLock100, ⟨#[0xac]⟩, timeLock500000010].Perm
        [timeLock500000010, heightLock100, ⟨#[0xac]⟩] ∧
      (calcLockTime [heightLock100, ⟨#[0xac]⟩, timeLock500000010]).toOption =
        (calcLockTime [timeLock500000010, heightLock100, ⟨#[0xac]⟩]).toOption :=
  ⟨by decide, lock_times_combine_to_maximum.2 _ _ (by decide)⟩

end BitcoinLight.Script
