import Mathlib
import BitcoinLight.Script.Token
import BitcoinLight.Script.Template
import BitcoinLight.Proofs.ByteCodec

set_option autoImplicit false

/-!
# Script tokens, code separators and the last push

`parse`, `removeCodeSeparators` and `lastPush` all walk a script with `nextOp`, but only `parse`
builds tokens; the other two copy or remember raw bytes. `OpWalk s pos ts e` is that walk: from
`pos` it decodes the tokens `ts` and stops at `e`, where no opcode decodes. Each of the three
functions is read off the walk, and the bytes of the walked tokens are the bytes walked over.

Every script then splits once as `p ++ t`, where the walk covers `p` and stops at the start of
`t`, which is empty or a truncated push. The tokens of `p` encode back to `p`; code-separator
removal drops exactly the separator tokens of `p`, so a `0xab` byte inside push data stays, and
copies `t`; the last push is the data of the last token of `p`. A token decodes from its own
bytes alone (`opWalk_token`), so the tokens removal keeps parse again to themselves, and removal
is idempotent.
-/

namespace BitcoinLight.Script

/-! ## Bytes of a concatenation -/

theorem byte?_append_left {a b : ByteArray} {i : Nat} (h : i < a.size) :
    (a ++ b)[i]? = a[i]? := by
  have h' : i < (a ++ b).size := by rw [ByteArray.size_append]; omega
  rw [getElem?_pos (a ++ b) i h', getElem?_pos a i h, ByteArray.getElem_append_left h]

theorem byte?_append_right (a b : ByteArray) (i : Nat) : (a ++ b)[a.size + i]? = b[i]? := by
  by_cases h : i < b.size
  · have h' : a.size + i < (a ++ b).size := by rw [ByteArray.size_append]; omega
    rw [getElem?_pos (a ++ b) _ h', getElem?_pos b i h, ByteArray.getElem_append_right (by omega)]
    simp
  · have h' : ¬ a.size + i < (a ++ b).size := by rw [ByteArray.size_append]; omega
    rw [getElem?_neg (a ++ b) _ h', getElem?_neg b i h]

theorem natAt_congr {s s' : ByteArray} {i n : Nat} (h : ∀ k < n, s[i + k]? = s'[i + k]?) :
    natAt s i n = natAt s' i n := by
  unfold natAt
  apply List.foldr_ext
  intro k hk acc
  rw [h k (List.mem_range.mp hk)]

theorem natAt_append_right (a b : ByteArray) (i n : Nat) :
    natAt (a ++ b) (a.size + i) n = natAt b i n := by
  unfold natAt
  apply List.foldr_ext
  intro k _ acc
  rw [Nat.add_assoc, byte?_append_right]

theorem extract_toList (s : ByteArray) {i n : Nat} (h : i + n ≤ s.size) :
    (s.extract i (i + n)).data.toList = (List.range n).map (fun k => s[i + k]?.getD 0) := by
  apply List.ext_getElem
  · simp; omega
  · intro k h1 h2
    simp only [List.length_map, List.length_range] at h2
    simp only [ByteArray.data_extract, Array.getElem_toList, Array.getElem_extract,
      List.getElem_map, List.getElem_range]
    rw [getElem?_pos s (i + k) (by omega), Option.getD_some, ByteArray.getElem_eq_getElem_data]

theorem natAt_eq_leValue (s : ByteArray) {i n : Nat} (h : i + n ≤ s.size) :
    natAt s i n = Word.leValue (s.extract i (i + n)).data.toList := by
  rw [extract_toList s h, natAt, Word.leValue, List.foldr_map]

theorem extract_one {s : ByteArray} {pos : Nat} {code : UInt8} (h : s[pos]? = some code) :
    s.extract pos (pos + 1) = ByteArray.empty.push code := by
  obtain ⟨hp, hcode⟩ := getElem?_eq_some_iff.mp h
  rw [ByteArray.extract_add_one hp, hcode]
  rfl

theorem le_natAt (s : ByteArray) {i w : Nat} (h : i + w ≤ s.size) :
    Word.le w (natAt s i w) = s.extract i (i + w) := by
  have hl : (s.extract i (i + w)).data.toList.length = w := by simp; omega
  have key := Word.le_leValue (s.extract i (i + w)).data.toList
  rw [hl] at key
  exact ByteArray.ext (Array.toList_inj.mp (by rw [natAt_eq_leValue s h]; exact key))

/-! ## Decoding one opcode -/

def OpStep.shift (k : Nat) (st : OpStep) : OpStep :=
  ⟨st.code, st.data.map (fun r => (k + r.1, k + r.2)), k + st.next⟩

theorem pushStep_append_right (a b : ByteArray) (code : UInt8) (start len : Nat) :
    pushStep (a ++ b) code (a.size + start) len =
      (pushStep b code start len).map (OpStep.shift a.size) := by
  unfold pushStep
  rw [ByteArray.size_append]
  by_cases h : start + len ≤ b.size
  · rw [if_pos (by omega), if_pos h]
    simp [OpStep.shift, Nat.add_assoc]
  · rw [if_neg (by omega), if_neg h]
    rfl

theorem nextOp_append_right (a b : ByteArray) (i : Nat) :
    nextOp (a ++ b) (a.size + i) = (nextOp b i).map (OpStep.shift a.size) := by
  unfold nextOp
  rw [byte?_append_right]
  cases b[i]? with
  | none => rfl
  | some code =>
    simp only [ByteArray.size_append, Nat.add_assoc, Nat.add_le_add_iff_left,
      pushStep_append_right, natAt_append_right]
    split_ifs <;> simp [OpStep.shift]

theorem pushStep_eq_some_iff {s : ByteArray} {code : UInt8} {start len : Nat} {st : OpStep} :
    pushStep s code start len = some st ↔
      start + len ≤ s.size ∧ st = ⟨code, some (start, start + len), start + len⟩ := by
  unfold pushStep
  split_ifs with h <;> simp [h, eq_comm]

theorem nextOp_cases {s : ByteArray} {pos : Nat} {st : OpStep} (h : nextOp s pos = some st) :
    ∃ code, s[pos]? = some code ∧
      ((1 ≤ code.toNat ∧ code.toNat ≤ 0x4b ∧ pos + 1 + code.toNat ≤ s.size ∧
          st = ⟨code, some (pos + 1, pos + 1 + code.toNat), pos + 1 + code.toNat⟩) ∨
        (∃ w, (code = 0x4c ∧ w = 1 ∨ code = 0x4d ∧ w = 2 ∨ code = 0x4e ∧ w = 4) ∧
          pos + 1 + w + natAt s (pos + 1) w ≤ s.size ∧
          st = ⟨code, some (pos + 1 + w, pos + 1 + w + natAt s (pos + 1) w),
            pos + 1 + w + natAt s (pos + 1) w⟩) ∨
        ((code.toNat = 0 ∨ 0x4e < code.toNat) ∧ st = ⟨code, none, pos + 1⟩)) := by
  unfold nextOp at h
  cases hc : s[pos]? with
  | none => simp [hc] at h
  | some code =>
    simp only [hc] at h
    refine ⟨code, rfl, ?_⟩
    -- a push with a length field of `w` bytes, its data from `pos + k` on
    have hfield : ∀ k w, k = w + 1 →
        (if pos + k ≤ s.size then pushStep s code (pos + k) (natAt s (pos + 1) w) else none) =
          some st →
        pos + 1 + w + natAt s (pos + 1) w ≤ s.size ∧
          st = ⟨code, some (pos + 1 + w, pos + 1 + w + natAt s (pos + 1) w),
            pos + 1 + w + natAt s (pos + 1) w⟩ := by
      intro k w hk hp
      subst hk
      by_cases hs : pos + (w + 1) ≤ s.size
      · rw [if_pos hs] at hp
        obtain ⟨hb, rfl⟩ := pushStep_eq_some_iff.mp hp
        exact ⟨by omega, by simp [Nat.add_assoc, Nat.add_comm 1 w]⟩
      · rw [if_neg hs] at hp
        cases hp
    by_cases hd : 1 ≤ code.toNat ∧ code.toNat ≤ 0x4b
    · rw [if_pos hd] at h
      obtain ⟨hb, rfl⟩ := pushStep_eq_some_iff.mp h
      exact .inl ⟨hd.1, hd.2, hb, rfl⟩
    rw [if_neg hd] at h
    by_cases h1 : code = 0x4c
    · rw [if_pos h1] at h
      exact .inr (.inl ⟨1, .inl ⟨h1, rfl⟩, hfield 2 1 rfl h⟩)
    rw [if_neg h1] at h
    by_cases h2 : code = 0x4d
    · rw [if_pos h2] at h
      exact .inr (.inl ⟨2, .inr (.inl ⟨h2, rfl⟩), hfield 3 2 rfl h⟩)
    rw [if_neg h2] at h
    by_cases h4 : code = 0x4e
    · rw [if_pos h4] at h
      exact .inr (.inl ⟨4, .inr (.inr ⟨h4, rfl⟩), hfield 5 4 rfl h⟩)
    rw [if_neg h4] at h
    have hplain : code.toNat = 0 ∨ 0x4e < code.toNat := by
      have h1' : code.toNat ≠ 0x4c := fun e => h1 (UInt8.toNat_inj.mp e)
      have h2' : code.toNat ≠ 0x4d := fun e => h2 (UInt8.toNat_inj.mp e)
      have h4' : code.toNat ≠ 0x4e := fun e => h4 (UInt8.toNat_inj.mp e)
      omega
    exact .inr (.inr ⟨hplain, (Option.some.inj h).symm⟩)

theorem nextOp_of_cases {s : ByteArray} {pos : Nat} {st : OpStep} {code : UInt8}
    (hc : s[pos]? = some code)
    (h : (1 ≤ code.toNat ∧ code.toNat ≤ 0x4b ∧ pos + 1 + code.toNat ≤ s.size ∧
          st = ⟨code, some (pos + 1, pos + 1 + code.toNat), pos + 1 + code.toNat⟩) ∨
        (∃ w, (code = 0x4c ∧ w = 1 ∨ code = 0x4d ∧ w = 2 ∨ code = 0x4e ∧ w = 4) ∧
          pos + 1 + w + natAt s (pos + 1) w ≤ s.size ∧
          st = ⟨code, some (pos + 1 + w, pos + 1 + w + natAt s (pos + 1) w),
            pos + 1 + w + natAt s (pos + 1) w⟩) ∨
        ((code.toNat = 0 ∨ 0x4e < code.toNat) ∧ st = ⟨code, none, pos + 1⟩)) :
    nextOp s pos = some st := by
  unfold nextOp
  simp only [hc]
  rcases h with ⟨h1, h2, hb, rfl⟩ | ⟨w, hw, hb, rfl⟩ | ⟨hplain, rfl⟩
  · rw [if_pos ⟨h1, h2⟩]
    exact pushStep_eq_some_iff.mpr ⟨hb, rfl⟩
  · -- the data starts after the opcode and its field of `w` bytes, at `pos + k`
    have hfield : ∀ k, k = w + 1 →
        (if pos + k ≤ s.size then pushStep s code (pos + k) (natAt s (pos + 1) w) else none) =
          some ⟨code, some (pos + 1 + w, pos + 1 + w + natAt s (pos + 1) w),
            pos + 1 + w + natAt s (pos + 1) w⟩ := by
      rintro k rfl
      rw [if_pos (by omega), pushStep_eq_some_iff]
      exact ⟨by omega, by simp [Nat.add_assoc, Nat.add_comm 1 w]⟩
    rcases hw with ⟨rfl, rfl⟩ | ⟨rfl, rfl⟩ | ⟨rfl, rfl⟩
    · rw [if_neg (by decide), if_pos rfl]
      exact hfield 2 rfl
    · rw [if_neg (by decide), if_neg (by decide), if_pos rfl]
      exact hfield 3 rfl
    · rw [if_neg (by decide), if_neg (by decide), if_neg (by decide), if_pos rfl]
      exact hfield 5 rfl
  · have h1 : code ≠ 0x4c := fun e => by subst e; simp at hplain
    have h2 : code ≠ 0x4d := fun e => by subst e; simp at hplain
    have h4 : code ≠ 0x4e := fun e => by subst e; simp at hplain
    rw [if_neg (by omega), if_neg h1, if_neg h2, if_neg h4]

theorem nextOp_congr {s s' : ByteArray} {n pos : Nat} {st : OpStep} (hn' : n ≤ s'.size)
    (hagree : ∀ i < n, s[i]? = s'[i]?) (h : nextOp s pos = some st) (hst : st.next ≤ n) :
    nextOp s' pos = some st := by
  have hlt := nextOp_lt h
  obtain ⟨code, hc, ⟨h1, h2, hb, rfl⟩ | ⟨w, hw, hb, rfl⟩ | hplain⟩ := nextOp_cases h
  · exact nextOp_of_cases ((hagree pos (by omega)).symm.trans hc)
      (.inl ⟨h1, h2, by dsimp only at hst; omega, rfl⟩)
  · -- the length field lies below the end of the push, within the agreeing bytes
    dsimp only at hst
    have hnat : natAt s' (pos + 1) w = natAt s (pos + 1) w :=
      (natAt_congr fun k hk => hagree _ (by omega)).symm
    refine nextOp_of_cases ((hagree pos (by omega)).symm.trans hc) (.inr (.inl ⟨w, hw, ?_, ?_⟩))
    · rw [hnat]; omega
    · rw [hnat]
  · exact nextOp_of_cases ((hagree pos (by omega)).symm.trans hc) (.inr (.inr hplain))

theorem nextOp_next_le {s : ByteArray} {pos : Nat} {st : OpStep} (h : nextOp s pos = some st) :
    st.next ≤ s.size := by
  have hlt := nextOp_lt h
  obtain ⟨code, -, hd | ⟨w, -, hb, rfl⟩ | ⟨-, rfl⟩⟩ := nextOp_cases h
  · obtain ⟨-, -, hb, rfl⟩ := hd
    exact hb
  · exact hb
  · simpa using hlt.1

theorem nextOp_of_size_le {s : ByteArray} {pos : Nat} (h : s.size ≤ pos) :
    nextOp s pos = none := by
  unfold nextOp
  rw [getElem?_neg s pos (by omega)]

theorem nextOp_data {s : ByteArray} {pos : Nat} {st : OpStep} (h : nextOp s pos = some st)
    {r : Nat × Nat} (hr : st.data = some r) : r.1 ≤ r.2 ∧ r.2 = st.next := by
  obtain ⟨code, -, ⟨-, -, -, rfl⟩ | ⟨w, -, -, rfl⟩ | ⟨-, rfl⟩⟩ := nextOp_cases h
  · cases hr; simp
  · cases hr; simp
  · cases hr

theorem nextOp_append_left {a b : ByteArray} {pos : Nat} {st : OpStep}
    (h : nextOp a pos = some st) : nextOp (a ++ b) pos = some st :=
  nextOp_congr (n := a.size) (by simp) (fun _ hi => (byte?_append_left hi).symm) h
    (nextOp_next_le h)

theorem nextOp_of_append {a b : ByteArray} {pos : Nat} {st : OpStep}
    (h : nextOp (a ++ b) pos = some st) (hst : st.next ≤ a.size) : nextOp a pos = some st :=
  nextOp_congr (n := a.size) le_rfl (fun _ hi => byte?_append_left hi) h hst

/-! ## The token of a decoded opcode -/

theorem encode_token {s : ByteArray} {pos : Nat} {st : OpStep} (h : nextOp s pos = some st) :
    (st.token s).encode = s.extract pos st.next := by
  obtain ⟨code, hc, ⟨h1, h2, hb, rfl⟩ | ⟨w, hw, hb, rfl⟩ | ⟨hplain, rfl⟩⟩ :=
    nextOp_cases h
  · -- a direct push has no length field
    have h4c : code ≠ 0x4c := fun e => by subst e; simp at h2
    have h4d : code ≠ 0x4d := fun e => by subst e; simp at h2
    have h4e : code ≠ 0x4e := fun e => by subst e; simp at h2
    simp only [OpStep.token, Token.encode, h4c, h4d, h4e, if_false, ByteArray.append_empty,
      ← extract_one hc, ByteArray.extract_append_extract]
    rw [Nat.min_eq_left (by omega), Nat.max_eq_right (by omega)]
  · -- the length field is the bytes it was read from
    have hd : (s.extract (pos + 1 + w) (pos + 1 + w + natAt s (pos + 1) w)).size =
        natAt s (pos + 1) w := by simp; omega
    have hlen : (if code = 0x4c then Word.le 1 (natAt s (pos + 1) w)
        else if code = 0x4d then Word.le 2 (natAt s (pos + 1) w)
        else if code = 0x4e then Word.le 4 (natAt s (pos + 1) w) else ByteArray.empty) =
        s.extract (pos + 1) (pos + 1 + w) := by
      rw [← le_natAt s (by omega)]
      rcases hw with ⟨rfl, rfl⟩ | ⟨rfl, rfl⟩ | ⟨rfl, rfl⟩ <;> simp
    simp only [OpStep.token, Token.encode, hd, hlen, ← extract_one hc,
      ByteArray.extract_append_extract]
    rw [Nat.min_eq_left (by omega), Nat.max_eq_right (by omega), ByteArray.extract_append_extract,
      Nat.min_eq_left (by omega), Nat.max_eq_right (by omega)]
  · have h4 : ¬(1 ≤ code.toNat ∧ code.toNat ≤ 0x4e) := by omega
    simp only [OpStep.token, Token.encode, extract_one hc]

theorem token_data? (s : ByteArray) (st : OpStep) :
    (st.token s).data? = st.data.map (fun r => s.extract r.1 r.2) := by
  rcases st with ⟨code, _ | ⟨a, b⟩, next⟩ <;> rfl

theorem token_eq_separator {s : ByteArray} {st : OpStep} (h : st.token s = .op 0xab) :
    st.code = 0xab := by
  rcases st with ⟨code, _ | ⟨a, b⟩, next⟩
  · cases h; rfl
  · cases h

theorem token_append_left {a b : ByteArray} {st : OpStep} (h : ∀ r ∈ st.data, r.2 ≤ a.size) :
    st.token (a ++ b) = st.token a := by
  rcases st with ⟨code, _ | ⟨i, j⟩, next⟩
  · rfl
  · have hj : j ≤ a.size := h (i, j) rfl
    have hb : b.extract (i - a.size) 0 = ByteArray.empty :=
      ByteArray.extract_eq_empty_iff.mpr (by simp)
    simp only [OpStep.token, ByteArray.extract_append, Nat.sub_eq_zero_of_le hj, hb,
      ByteArray.append_empty]

theorem token_shift (a b : ByteArray) (st : OpStep) :
    (st.shift a.size).token (a ++ b) = st.token b := by
  rcases st with ⟨code, _ | ⟨i, j⟩, next⟩
  · rfl
  · simp only [OpStep.shift, OpStep.token, Option.map_some, ByteArray.extract_append_size_add]

theorem token_of_separator {s : ByteArray} {pos : Nat} {st : OpStep} (hn : nextOp s pos = some st)
    (hc : st.code = 0xab) : st.token s = .op 0xab := by
  obtain ⟨code, -, ⟨-, h2, -, rfl⟩ | ⟨w, hw, -, rfl⟩ | ⟨-, rfl⟩⟩ := nextOp_cases hn
  · simp only at hc
    subst hc
    exact absurd h2 (by decide)
  · simp only at hc
    subst hc
    rcases hw with ⟨h, -⟩ | ⟨h, -⟩ | ⟨h, -⟩ <;> exact absurd h (by decide)
  · simp only at hc
    subst hc
    rfl

theorem foldl_append_encode (acc : ByteArray) (ts : List Token) :
    ts.foldl (fun acc t => acc ++ t.encode) acc = acc ++ encodeTokens ts := by
  induction ts generalizing acc with
  | nil => simp [encodeTokens]
  | cons t ts ih =>
    conv_rhs => rw [encodeTokens, List.foldl_cons, ih, ByteArray.empty_append]
    rw [List.foldl_cons, ih, ByteArray.append_assoc]

@[simp] theorem encodeTokens_nil : encodeTokens [] = ByteArray.empty := rfl

theorem encodeTokens_cons (t : Token) (ts : List Token) :
    encodeTokens (t :: ts) = t.encode ++ encodeTokens ts := by
  rw [encodeTokens, List.foldl_cons, foldl_append_encode, ByteArray.empty_append]

/-! ## Walks -/

/-- The opcode walk from `pos`: the tokens decoded one after another, up to the offset `e` where
no opcode decodes, the end of the script or a truncated push. -/
inductive OpWalk (s : ByteArray) : Nat → List Token → Nat → Prop
  | stop {pos : Nat} : nextOp s pos = none → OpWalk s pos [] pos
  | step {pos : Nat} {st : OpStep} {ts : List Token} {e : Nat} :
      nextOp s pos = some st → OpWalk s st.next ts e → OpWalk s pos (st.token s :: ts) e

theorem opWalk_exists (s : ByteArray) (pos : Nat) : ∃ ts e, OpWalk s pos ts e := by
  -- each decoded opcode moves strictly forward, towards the end of the script
  induction hn : s.size - pos using Nat.strong_induction_on generalizing pos with
  | _ n ih =>
    cases h : nextOp s pos with
    | none => exact ⟨[], pos, .stop h⟩
    | some st =>
      have hlt := nextOp_lt h
      obtain ⟨ts, e, hw⟩ := ih (s.size - st.next) (by omega) st.next rfl
      exact ⟨_, e, .step h hw⟩

namespace OpWalk

variable {s : ByteArray} {pos e : Nat} {ts : List Token}

theorem le (h : OpWalk s pos ts e) : pos ≤ e := by
  induction h with
  | stop _ => exact le_rfl
  | step hn _ ih => exact (nextOp_lt hn).2.le.trans ih

theorem le_size (h : OpWalk s pos ts e) (hp : pos ≤ s.size) : e ≤ s.size := by
  induction h with
  | stop _ => exact hp
  | step hn _ ih => exact ih (nextOp_next_le hn)

theorem end_none (h : OpWalk s pos ts e) : nextOp s e = none := by
  induction h with
  | stop hn => exact hn
  | step _ _ ih => exact ih

end OpWalk

theorem OpWalk.unique {s : ByteArray} {pos e e' : Nat} {ts ts' : List Token}
    (h : OpWalk s pos ts e) (h' : OpWalk s pos ts' e') : ts = ts' ∧ e = e' := by
  induction h generalizing ts' e' with
  | @stop pos hn =>
    cases h' with
    | stop _ => simp
    | step hn' _ => rw [hn] at hn'; cases hn'
  | @step pos st ts e hn hw ih =>
    cases h' with
    | stop hn' => rw [hn] at hn'; cases hn'
    | step hn' hw' =>
      rw [hn] at hn'
      cases hn'
      obtain ⟨rfl, rfl⟩ := ih hw'
      simp

namespace OpWalk

theorem shift (a : ByteArray) {b : ByteArray} {i e : Nat} {us : List Token}
    (h : OpWalk b i us e) : OpWalk (a ++ b) (a.size + i) us (a.size + e) := by
  induction h with
  | @stop i hn => exact .stop (by rw [nextOp_append_right, hn]; rfl)
  | @step i st us e hn _ ih =>
    have h' : nextOp (a ++ b) (a.size + i) = some (st.shift a.size) := by
      rw [nextOp_append_right, hn]; rfl
    rw [← token_shift a b st]
    exact .step h' ih

theorem append {a b : ByteArray} {pos e : Nat} {ts us : List Token}
    (ha : OpWalk a pos ts a.size) (hb : OpWalk b 0 us e) :
    OpWalk (a ++ b) pos (ts ++ us) (a.size + e) := by
  generalize hend : a.size = n at ha
  induction ha with
  | @stop pos _ =>
    subst hend
    simpa using hb.shift a
  | @step pos st ts n hn _ ih =>
    have hst : ∀ r ∈ st.data, r.2 ≤ a.size := fun r hr => by
      have := nextOp_data hn hr; have := nextOp_next_le hn; omega
    rw [List.cons_append, ← token_append_left (b := b) hst]
    exact .step (nextOp_append_left hn) (ih hend)

theorem of_append {a b : ByteArray} {pos : Nat} {ts : List Token}
    (h : OpWalk (a ++ b) pos ts a.size) : OpWalk a pos ts a.size := by
  generalize hend : a.size = n at h ⊢
  induction h with
  | @stop pos _ =>
    subst hend
    exact .stop (nextOp_of_size_le le_rfl)
  | @step pos st ts n hn hw ih =>
    have hle : st.next ≤ a.size := hend ▸ hw.le
    have hst : ∀ r ∈ st.data, r.2 ≤ a.size := fun r hr => by
      have := nextOp_data hn hr; omega
    rw [token_append_left hst]
    exact .step (nextOp_of_append hn hle) (ih hend)

end OpWalk

theorem opWalk_token {s : ByteArray} {pos : Nat} {st : OpStep} (hn : nextOp s pos = some st) :
    OpWalk (s.extract pos st.next) 0 [st.token s] (s.extract pos st.next).size := by
  obtain ⟨hlt, hgt⟩ := nextOp_lt hn
  have hle := nextOp_next_le hn
  -- the bytes before the opcode, its own bytes, and the rest
  have hsplit : s.extract 0 pos ++ (s.extract pos st.next ++ s.extract st.next s.size) = s := by
    rw [ByteArray.extract_append_extract, Nat.min_eq_left hgt.le, Nat.max_eq_right hle,
      ByteArray.extract_append_extract, Nat.min_eq_left (Nat.zero_le _), Nat.max_eq_right hlt.le,
      ByteArray.extract_zero_size]
  have hsize : (s.extract 0 pos).size = pos := by simp; omega
  have hshift : nextOp (s.extract 0 pos ++ (s.extract pos st.next ++ s.extract st.next s.size))
      ((s.extract 0 pos).size + 0) = some st := by
    rw [hsplit, hsize, Nat.add_zero]; exact hn
  rw [nextOp_append_right] at hshift
  obtain ⟨st', hst', hst⟩ := Option.map_eq_some_iff.mp hshift
  have hnext : st.next = pos + st'.next := by rw [← hst, hsize]; rfl
  have hxsize : (s.extract pos st.next).size = st'.next := by simp; omega
  have hx : nextOp (s.extract pos st.next) 0 = some st' := nextOp_of_append hst' hxsize.ge
  have htok : st.token s = st'.token (s.extract pos st.next) :=
    calc st.token s
        = (st'.shift (s.extract 0 pos).size).token
            (s.extract 0 pos ++ (s.extract pos st.next ++ s.extract st.next s.size)) := by
          rw [hst, hsplit]
      _ = st'.token (s.extract pos st.next ++ s.extract st.next s.size) := token_shift _ _ _
      _ = st'.token (s.extract pos st.next) := token_append_left fun r hr => by
          have := nextOp_data hst' hr; omega
  rw [htok, hxsize]
  exact .step hx (.stop (nextOp_of_size_le hxsize.le))

theorem OpWalk.token_walks {s : ByteArray} {pos e : Nat} {ts : List Token}
    (h : OpWalk s pos ts e) : ∀ u ∈ ts, OpWalk u.encode 0 [u] u.encode.size := by
  induction h with
  | stop _ => simp
  | @step pos st ts e hn _ ih =>
    intro u hu
    rcases List.mem_cons.mp hu with rfl | hu
    · rw [encode_token hn]
      exact opWalk_token hn
    · exact ih u hu

theorem opWalk_encodeTokens (us : List Token)
    (h : ∀ u ∈ us, OpWalk u.encode 0 [u] u.encode.size) :
    OpWalk (encodeTokens us) 0 us (encodeTokens us).size := by
  induction us with
  | nil => exact .stop (nextOp_of_size_le (by simp))
  | cons u us ih =>
    have hwalk := (h u (by simp)).append (ih fun v hv => h v (by simp [hv]))
    rw [encodeTokens_cons, ByteArray.size_append]
    exact hwalk

/-! ## What the walkers compute -/

/-! Each walker takes one step of the walk at a time. -/

section Steps

variable {s : ByteArray} {pos : Nat}

theorem parseFrom_of_none (hn : nextOp s pos = none) :
    parseFrom s pos = if pos < s.size then .error (.truncatedPush pos) else .ok [] := by
  rw [parseFrom]
  split
  · split
    · simp
    · rename_i h; rw [hn] at h; cases h
  · simp

theorem parseFrom_of_some {st : OpStep} (hn : nextOp s pos = some st) :
    parseFrom s pos = (parseFrom s st.next).map (st.token s :: ·) := by
  rw [parseFrom, dif_pos (nextOp_lt hn).1]
  split
  · rename_i h; rw [hn] at h; cases h
  · rename_i h; rw [hn] at h; cases h
    rfl

theorem removeSeparatorsFrom_of_none {seg : Nat} (hn : nextOp s pos = none) :
    removeSeparatorsFrom s seg pos = s.extract seg s.size := by
  rw [removeSeparatorsFrom]
  split
  · rfl
  · rename_i h; rw [hn] at h; cases h

theorem removeSeparatorsFrom_of_some {seg : Nat} {st : OpStep} (hn : nextOp s pos = some st) :
    removeSeparatorsFrom s seg pos =
      if st.code = 0xab then s.extract seg pos ++ removeSeparatorsFrom s st.next st.next
      else removeSeparatorsFrom s seg st.next := by
  rw [removeSeparatorsFrom]
  split
  · rename_i h; rw [hn] at h; cases h
  · rename_i h; rw [hn] at h; cases h
    rfl

theorem lastPushFrom_of_none {last : Option ByteArray} (hn : nextOp s pos = none) :
    lastPushFrom s pos last = last := by
  rw [lastPushFrom]
  split
  · rfl
  · rename_i h; rw [hn] at h; cases h

theorem lastPushFrom_of_some {last : Option ByteArray} {st : OpStep}
    (hn : nextOp s pos = some st) :
    lastPushFrom s pos last =
      lastPushFrom s st.next (st.data.map (fun r => s.extract r.1 r.2)) := by
  rw [lastPushFrom]
  split
  · rename_i h; rw [hn] at h; cases h
  · rename_i h; rw [hn] at h; cases h
    rfl

end Steps

theorem parseFrom_of_opWalk {s : ByteArray} {pos e : Nat} {ts : List Token}
    (h : OpWalk s pos ts e) :
    parseFrom s pos = if e < s.size then .error (.truncatedPush e) else .ok ts := by
  induction h with
  | stop hn => rw [parseFrom_of_none hn]
  | step hn _ ih =>
    rw [parseFrom_of_some hn, ih]
    split <;> rfl

theorem encodeTokens_of_opWalk {s : ByteArray} {pos e : Nat} {ts : List Token}
    (h : OpWalk s pos ts e) : encodeTokens ts = s.extract pos e := by
  induction h with
  | @stop pos _ => simp
  | @step pos st ts e hn hw ih =>
    rw [encodeTokens_cons, encode_token hn, ih, ByteArray.extract_append_extract,
      Nat.min_eq_left (nextOp_lt hn).2.le, Nat.max_eq_right hw.le]

theorem removeSeparatorsFrom_of_opWalk {s : ByteArray} {pos e : Nat} {ts : List Token}
    (h : OpWalk s pos ts e) (hpos : pos ≤ s.size) {seg : Nat} (hseg : seg ≤ pos) :
    removeSeparatorsFrom s seg pos =
      s.extract seg pos ++ encodeTokens (ts.filter (· ≠ .op 0xab)) ++ s.extract e s.size := by
  induction h generalizing seg with
  | @stop pos hn =>
    simp only [removeSeparatorsFrom_of_none hn, List.filter_nil, encodeTokens_nil,
      ByteArray.append_empty, ByteArray.extract_append_extract, Nat.min_eq_left hseg,
      Nat.max_eq_right hpos]
  | @step pos st ts e hn hw ih =>
    have hnext := nextOp_next_le hn
    rw [removeSeparatorsFrom_of_some hn]
    split
    · -- a code separator ends the copied segment and is dropped
      rename_i hsep
      rw [ih hnext le_rfl, token_of_separator hn hsep, List.filter_cons_of_neg (by simp),
        ByteArray.extract_same, ByteArray.empty_append, ByteArray.append_assoc]
    · rename_i hsep
      have htok : st.token s ≠ .op 0xab := fun h => hsep (token_eq_separator h)
      have hseg' : seg ≤ st.next := by have := (nextOp_lt hn).2; omega
      rw [ih hnext hseg', List.filter_cons_of_pos (by simpa using htok),
        encodeTokens_cons, encode_token hn, ← ByteArray.append_assoc,
        ByteArray.extract_append_extract, Nat.min_eq_left hseg,
        Nat.max_eq_right (nextOp_lt hn).2.le]

theorem lastPushFrom_of_opWalk {s : ByteArray} {pos e : Nat} {ts : List Token}
    (h : OpWalk s pos ts e) (last : Option ByteArray) :
    lastPushFrom s pos last = (ts.getLast?.map Token.data?).getD last := by
  induction h generalizing last with
  | stop hn => rw [lastPushFrom_of_none hn]; rfl
  | @step pos st ts e hn hw ih =>
    rw [lastPushFrom_of_some hn, ih, List.getLast?_cons]
    cases ts.getLast? with
    | none => simp [token_data?]
    | some u => rfl

theorem parse_of_opWalk {p : ByteArray} {ts : List Token} (h : OpWalk p 0 ts p.size) :
    parse p = .ok ts := by
  rw [parse, parseFrom_of_opWalk h, if_neg (Nat.lt_irrefl _)]

theorem opWalk_of_parse {p : ByteArray} {ts : List Token} (h : parse p = .ok ts) :
    OpWalk p 0 ts p.size := by
  obtain ⟨us, e, hw⟩ := opWalk_exists p 0
  have he := hw.le_size (Nat.zero_le _)
  have hp := parseFrom_of_opWalk hw
  rw [← parse, h] at hp
  by_cases hlt : e < p.size
  · rw [if_pos hlt] at hp; cases hp
  · rw [if_neg hlt] at hp
    cases hp
    rwa [show p.size = e by omega]

theorem encodeTokens_of_parse {p : ByteArray} {ts : List Token} (h : parse p = .ok ts) :
    encodeTokens ts = p := by
  rw [encodeTokens_of_opWalk (opWalk_of_parse h), ByteArray.extract_zero_size]

/-! ## The split of a script -/

section Split

/-! A script splits as `p ++ t`, where `p` is walked completely and no opcode decodes at the
start of `t`: `t` is empty or starts with a truncated push. -/

variable {p t : ByteArray} {ts : List Token}

theorem opWalk_of_split (hp : parse p = .ok ts) (ht : nextOp t 0 = none) :
    OpWalk (p ++ t) 0 ts p.size := by
  simpa using (opWalk_of_parse hp).append (.stop ht : OpWalk t 0 [] 0)

theorem parse_of_split (hp : parse p = .ok ts) (ht : nextOp t 0 = none) :
    parse (p ++ t) = if t = .empty then .ok ts else .error (.truncatedPush p.size) := by
  rw [parse, parseFrom_of_opWalk (opWalk_of_split hp ht), ByteArray.size_append]
  by_cases h : t = .empty
  · subst h
    simp
  · have hpos : t.size ≠ 0 := fun h0 => h (ByteArray.size_eq_zero_iff.mp h0)
    rw [if_pos (by omega), if_neg h]

theorem removeCodeSeparators_of_split (hp : parse p = .ok ts) (ht : nextOp t 0 = none) :
    removeCodeSeparators (p ++ t) = encodeTokens (ts.filter (· ≠ .op 0xab)) ++ t := by
  rw [removeCodeSeparators, removeSeparatorsFrom_of_opWalk (opWalk_of_split hp ht)
    (Nat.zero_le _) le_rfl, ByteArray.extract_same, ByteArray.empty_append,
    ByteArray.extract_append_eq_right rfl (ByteArray.size_append ..)]

theorem lastPush_of_split (hp : parse p = .ok ts) (ht : nextOp t 0 = none) :
    lastPush (p ++ t) = ts.getLast?.bind Token.data? := by
  rw [lastPush, lastPushFrom_of_opWalk (opWalk_of_split hp ht)]
  cases ts.getLast? <;> rfl

end Split

theorem existsUnique_split (s : ByteArray) :
    ∃! p, ∃ t ts, s = p ++ t ∧ parse p = .ok ts ∧ nextOp t 0 = none := by
  obtain ⟨ts, e, hw⟩ := opWalk_exists s 0
  have he := hw.le_size (Nat.zero_le _)
  have hsplit : s.extract 0 e ++ s.extract e s.size = s := by
    rw [ByteArray.extract_append_extract, Nat.min_eq_left (Nat.zero_le _), Nat.max_eq_right he,
      ByteArray.extract_zero_size]
  have hsize : (s.extract 0 e).size = e := by simp; omega
  have hw' : OpWalk (s.extract 0 e ++ s.extract e s.size) 0 ts (s.extract 0 e).size := by
    rw [hsplit, hsize]; exact hw
  have hend : nextOp (s.extract 0 e ++ s.extract e s.size) ((s.extract 0 e).size + 0) = none := by
    rw [hsplit, hsize, Nat.add_zero]; exact hw.end_none
  rw [nextOp_append_right, Option.map_eq_none_iff] at hend
  refine ⟨s.extract 0 e,
    ⟨s.extract e s.size, ts, hsplit.symm, parse_of_opWalk hw'.of_append, hend⟩, ?_⟩
  -- any other split walks the script to the same offset
  rintro p ⟨t, us, rfl, hp, ht⟩
  obtain ⟨-, rfl⟩ := hw.unique (opWalk_of_split hp ht)
  exact (ByteArray.extract_append_eq_left rfl).symm

theorem removeCodeSeparators_removeCodeSeparators (s : ByteArray) :
    removeCodeSeparators (removeCodeSeparators s) = removeCodeSeparators s := by
  obtain ⟨p, ⟨t, ts, rfl, hp, ht⟩, -⟩ := existsUnique_split s
  -- the kept tokens decode from their own bytes, so they parse again to themselves
  have hq : parse (encodeTokens (ts.filter (· ≠ .op 0xab))) =
      .ok (ts.filter (· ≠ .op 0xab)) :=
    parse_of_opWalk (opWalk_encodeTokens _ fun u hu =>
      (opWalk_of_parse hp).token_walks u (List.mem_of_mem_filter hu))
  rw [removeCodeSeparators_of_split hp ht, removeCodeSeparators_of_split hq ht, List.filter_filter]
  simp

theorem script_tokens_split_round_trip (s : ByteArray) :
    (∃! p, ∃ t ts, s = p ++ t ∧ parse p = .ok ts ∧ nextOp t 0 = none) ∧
    (∀ p t ts, s = p ++ t → parse p = .ok ts → nextOp t 0 = none →
      parse s = (if t = .empty then .ok ts else .error (.truncatedPush p.size)) ∧
      encodeTokens ts = p ∧
      removeCodeSeparators s = encodeTokens (ts.filter (· ≠ .op 0xab)) ++ t ∧
      lastPush s = ts.getLast?.bind Token.data?) ∧
    removeCodeSeparators (removeCodeSeparators s) = removeCodeSeparators s := by
  refine ⟨existsUnique_split s, ?_, removeCodeSeparators_removeCodeSeparators s⟩
  rintro p t ts rfl hp ht
  exact ⟨parse_of_split hp ht, encodeTokens_of_parse hp, removeCodeSeparators_of_split hp ht,
    lastPush_of_split hp ht⟩

/-- A code separator, a push of two `0xab` bytes, then a `PUSHDATA1` of five bytes with only one
present. -/
def separatorInPush : ByteArray := ⟨#[0xab, 0x02, 0xab, 0xab, 0x4c, 0x05, 0x01]⟩

/-- Only the code separator outside the push is removed; the truncated push is copied. -/
theorem separatorInPush_tokens :
    (separatorInPush = ⟨#[0xab, 0x02, 0xab, 0xab]⟩ ++ ⟨#[0x4c, 0x05, 0x01]⟩ ∧
      parse ⟨#[0xab, 0x02, 0xab, 0xab]⟩ = .ok [.op 0xab, .push 0x02 ⟨#[0xab, 0xab]⟩] ∧
      nextOp ⟨#[0x4c, 0x05, 0x01]⟩ 0 = none) ∧
    parse separatorInPush = .error (.truncatedPush 4) ∧
    removeCodeSeparators separatorInPush = ⟨#[0x02, 0xab, 0xab, 0x4c, 0x05, 0x01]⟩ ∧
    lastPush separatorInPush = some ⟨#[0xab, 0xab]⟩ := by
  have hs : separatorInPush = ⟨#[0xab, 0x02, 0xab, 0xab]⟩ ++ ⟨#[0x4c, 0x05, 0x01]⟩ := by
    decide
  have hp : parse ⟨#[0xab, 0x02, 0xab, 0xab]⟩ =
      .ok [.op 0xab, .push 0x02 ⟨#[0xab, 0xab]⟩] := by
    decide +kernel
  have ht : nextOp ⟨#[0x4c, 0x05, 0x01]⟩ 0 = none := by decide
  obtain ⟨hparse, -, hremove, hlast⟩ :=
    (script_tokens_split_round_trip separatorInPush).2.1 _ _ _ hs hp ht
  refine ⟨⟨hs, hp, ht⟩, ?_, ?_, ?_⟩
  · rw [hparse]; decide
  · rw [hremove]; decide
  · rw [hlast]; decide

end BitcoinLight.Script
