import Mathlib
import BitcoinLight.Tx.Decode
import BitcoinLight.Tx.Encode

set_option autoImplicit false

/-!
# Reading back what is written

Two laws tie a reader to a writer, stated over the bytes a cursor has not yet read. A reader is
*canonical* for an encoding when whatever it accepts is the encoding of the value it returns,
followed by what it leaves; it *decodes* an encoding when, at those bytes followed by anything,
it returns the value and leaves what follows. Both compose through `bind`, so each reader of a
transaction gets them from its parts.

Here they are proved for the leaves: fixed-width little-endian words, hashes, compact sizes
(which must use their shortest form), counts no larger than the bytes left, length-prefixed
bytes, repetition, and the final check that nothing is left.
-/

namespace BitcoinLight

namespace Cursor

def rest (c : Cursor) : List UInt8 := c.data.data.toList.drop c.pos

theorem remaining_eq (c : Cursor) : c.remaining = c.rest.length := by
  simp [remaining, rest]

end Cursor

namespace Read

variable {α β : Type}

def Canonical (r : Read α) (enc : α → List UInt8) : Prop :=
  ∀ ⦃c : Cursor⦄ ⦃v : α⦄ ⦃c' : Cursor⦄, r c = .ok v c' → c.rest = enc v ++ c'.rest

def Decodes (r : Read α) (bs : List UInt8) (v : α) : Prop :=
  ∀ (c : Cursor) (t : List UInt8), c.rest = bs ++ t → ∃ c', r c = .ok v c' ∧ c'.rest = t

theorem bind_ok {x : Read α} {f : α → Read β} {c c'' : Cursor} {b : β} :
    (x >>= f) c = .ok b c'' ↔ ∃ a c', x c = .ok a c' ∧ f a c' = .ok b c'' := by
  show EStateM.bind x f c = _ ↔ _
  unfold EStateM.bind
  rcases x c with ⟨a, c'⟩ | ⟨e, c'⟩ <;> simp

theorem bind_of_ok {x : Read α} {f : α → Read β} {c c' : Cursor} {a : α} (h : x c = .ok a c') :
    (x >>= f) c = f a c' := by
  show EStateM.bind x f c = _
  simp only [EStateM.bind, h]

theorem pure_ok {a b : α} {c c' : Cursor} (h : (pure a : Read α) c = .ok b c') : b = a ∧ c' = c := by
  cases h; exact ⟨rfl, rfl⟩

theorem Decodes.bind {x : Read α} {f : α → Read β} {bs bs' : List UInt8} {a : α} {b : β}
    (hx : x.Decodes bs a) (hf : (f a).Decodes bs' b) : (x >>= f).Decodes (bs ++ bs') b := by
  intro c t hc
  obtain ⟨c1, h1, r1⟩ := hx c (bs' ++ t) (by rw [hc, List.append_assoc])
  obtain ⟨c2, h2, r2⟩ := hf c1 t r1
  exact ⟨c2, bind_ok.mpr ⟨a, c1, h1, h2⟩, r2⟩

theorem Decodes.pure (v : α) : (Pure.pure v : Read α).Decodes [] v :=
  fun c _ hc => ⟨c, rfl, hc⟩

theorem bytes_ok {n : Nat} {c c' : Cursor} {b : ByteArray} (h : bytes n c = .ok b c') :
    b.size = n ∧ c.rest = b.data.toList ++ c'.rest := by
  unfold bytes at h
  split at h
  · rename_i hn
    cases h
    rw [Cursor.remaining_eq] at hn
    refine ⟨?_, ?_⟩
    · simp [Cursor.rest] at hn ⊢
      omega
    · simp [Cursor.rest, List.extract_eq_take_drop]
  · cases h

theorem bytes_decodes (b : ByteArray) : (bytes b.size).Decodes b.data.toList b := by
  intro c t hc
  have hn : b.size ≤ c.remaining := by
    rw [Cursor.remaining_eq, hc]; simp
  refine ⟨⟨c.data, c.pos + b.size⟩, ?_, ?_⟩
  · simp only [bytes, hn, ↓reduceIte]
    congr 1
    apply ByteArray.ext
    apply Array.ext'
    have : c.rest.take b.size = b.data.toList := by rw [hc]; simp
    simpa [Cursor.rest, List.extract_eq_take_drop] using this
  · have : c.rest.drop b.size = t := by rw [hc]; simp
    simpa [Cursor.rest, List.drop_drop] using this

end Read

namespace Word

def leValue (bs : List UInt8) : Nat := bs.foldr (fun x acc => acc * 256 + x.toNat) 0

@[simp] theorem leValue_nil : leValue [] = 0 := rfl

@[simp] theorem leValue_cons (x : UInt8) (bs : List UInt8) :
    leValue (x :: bs) = leValue bs * 256 + x.toNat := rfl

theorem le_zero_toList (v : Nat) : (le 0 v).data.toList = [] := by
  simp [le]

theorem le_succ_toList (n v : Nat) :
    (le (n + 1) v).data.toList = v.toUInt8 :: (le n (v / 256)).data.toList := by
  simp only [le, Array.toList_ofFn, List.ofFn_succ, Fin.val_zero, Fin.val_succ, Nat.mul_zero,
    Nat.shiftRight_zero, List.cons.injEq, true_and]
  congr 1
  funext i
  rw [Nat.shiftRight_eq_div_pow, Nat.shiftRight_eq_div_pow, Nat.div_div_eq_div_mul]
  congr 2
  rw [Nat.mul_add, Nat.pow_add]
  ring

theorem pow_eight_succ (n : Nat) : 2 ^ (8 * (n + 1)) = 256 * 2 ^ (8 * n) := by
  rw [Nat.mul_add, Nat.pow_add, Nat.mul_comm]

theorem leValue_lt (bs : List UInt8) : leValue bs < 2 ^ (8 * bs.length) := by
  induction bs with
  | nil => simp
  | cons x bs ih =>
    have hx := x.toNat_lt
    rw [leValue_cons, List.length_cons, pow_eight_succ]
    omega

theorem leValue_le (n v : Nat) : leValue (le n v).data.toList = v % 2 ^ (8 * n) := by
  induction n generalizing v with
  | zero => simp [le_zero_toList]; omega
  | succ n ih =>
    have hbyte : v.toUInt8.toNat = v % 256 := by simp
    rw [le_succ_toList, leValue_cons, ih, pow_eight_succ, Nat.mod_mul, hbyte]
    omega

theorem le_leValue (bs : List UInt8) : (le bs.length (leValue bs)).data.toList = bs := by
  induction bs with
  | nil => simp [le_zero_toList]
  | cons x bs ih =>
    have hx := x.toNat_lt
    rw [List.length_cons, le_succ_toList, leValue_cons]
    have hdiv : (leValue bs * 256 + x.toNat) / 256 = leValue bs := by omega
    rw [hdiv, ih]
    congr 1
    apply UInt8.toNat_inj.mp
    simp

theorem le_one_toNat (m : UInt8) : (le 1 m.toNat).data.toList = [m] := by
  rw [le_succ_toList, le_zero_toList]
  simp

end Word

namespace Read

variable {α : Type}

theorem natLE_eq (n : Nat) : natLE n = bytes n >>= fun b => pure (Word.leValue b.data.toList) := by
  simp only [natLE, Word.leValue, Array.foldr_toList]

theorem natLE_ok {n w : Nat} {c c' : Cursor} (h : natLE n c = .ok w c') :
    w < 2 ^ (8 * n) ∧ c.rest = (Word.le n w).data.toList ++ c'.rest := by
  rw [natLE_eq] at h
  obtain ⟨b, c1, hb, hw⟩ := bind_ok.mp h
  obtain ⟨rfl, rfl⟩ := pure_ok hw
  obtain ⟨hsize, hrest⟩ := bytes_ok hb
  have hlen : b.data.toList.length = n := by simpa using hsize
  refine ⟨hlen ▸ Word.leValue_lt _, ?_⟩
  rw [← hlen, Word.le_leValue]
  exact hrest

theorem natLE_decodes (n v : Nat) :
    (natLE n).Decodes (Word.le n v).data.toList (v % 2 ^ (8 * n)) := by
  intro c t hc
  obtain ⟨c1, h1, r1⟩ := bytes_decodes (Word.le n v) c t hc
  rw [Word.le_size] at h1
  refine ⟨c1, ?_, r1⟩
  rw [natLE_eq, bind_ok]
  exact ⟨_, c1, h1, by rw [Word.leValue_le]; rfl⟩

theorem word_canonical (k : Nat) (conv : Nat → α) (inv : α → Nat)
    (hinv : ∀ w, w < 2 ^ (8 * k) → inv (conv w) = w) :
    (natLE k >>= fun w => pure (conv w)).Canonical (fun v => (Word.le k (inv v)).data.toList) := by
  intro c v c' h
  obtain ⟨w, c1, hw, hv⟩ := bind_ok.mp h
  obtain ⟨rfl, rfl⟩ := pure_ok hv
  obtain ⟨hlt, hrest⟩ := natLE_ok hw
  show c.rest = (Word.le k (inv (conv w))).data.toList ++ c'.rest
  rw [hinv w hlt]
  exact hrest

theorem word_decodes (k : Nat) (conv : Nat → α) (inv : α → Nat)
    (hconv : ∀ v, conv (inv v % 2 ^ (8 * k)) = v) (v : α) :
    (natLE k >>= fun w => pure (conv w)).Decodes (Word.le k (inv v)).data.toList v := by
  have h := (natLE_decodes k (inv v)).bind (f := fun w => pure (conv w))
    (Decodes.pure (conv (inv v % 2 ^ (8 * k))))
  rw [hconv, List.append_nil] at h
  exact h

theorem u8_canonical : u8.Canonical (fun m => [m]) := by
  have h := word_canonical 1 Nat.toUInt8 UInt8.toNat
    (fun w hw => by simp; omega)
  intro c v c' hv
  rw [h hv]
  exact congrArg (· ++ c'.rest) (Word.le_one_toNat v)

theorem u8_decodes (m : UInt8) : u8.Decodes [m] m := by
  have h := word_decodes 1 Nat.toUInt8 UInt8.toNat
    (fun v => by simp) m
  rwa [Word.le_one_toNat] at h

theorem u32_canonical : u32.Canonical (fun v => (Word.u32 v).data.toList) :=
  word_canonical 4 Nat.toUInt32 UInt32.toNat (fun w hw => by simp; omega)

theorem u32_decodes (v : UInt32) : u32.Decodes (Word.u32 v).data.toList v :=
  word_decodes 4 Nat.toUInt32 UInt32.toNat (fun v => by simp) v

theorem i32_canonical : i32.Canonical (fun v => (Word.i32 v).data.toList) :=
  word_canonical 4 (fun w => w.toUInt32.toInt32) (fun v => v.toUInt32.toNat)
    (fun w hw => by simp; omega)

theorem i32_decodes (v : Int32) : i32.Decodes (Word.i32 v).data.toList v :=
  word_decodes 4 (fun w => w.toUInt32.toInt32) (fun v => v.toUInt32.toNat)
    (fun v => by simp) v

theorem u64_canonical : u64.Canonical (fun v => (Word.u64 v).data.toList) :=
  word_canonical 8 Nat.toUInt64 UInt64.toNat (fun w hw => by simp; omega)

theorem u64_decodes (v : UInt64) : u64.Decodes (Word.u64 v).data.toList v :=
  word_decodes 8 Nat.toUInt64 UInt64.toNat (fun v => by simp) v

theorem i64_canonical : i64.Canonical (fun v => (Word.i64 v).data.toList) :=
  word_canonical 8 (fun w => w.toUInt64.toInt64) (fun v => v.toUInt64.toNat)
    (fun w hw => by simp; omega)

theorem i64_decodes (v : Int64) : i64.Decodes (Word.i64 v).data.toList v :=
  word_decodes 8 (fun w => w.toUInt64.toInt64) (fun v => v.toUInt64.toNat)
    (fun v => by simp) v

theorem hash_canonical : hash.Canonical (fun h => h.bytes.data.toList) := by
  intro c v c' h
  unfold hash at h
  split at h
  · rename_i b c1 hb
    split at h
    · cases h
      exact (bytes_ok hb).2
    · cases h
  · cases h

theorem hash_decodes (h : Hash256) : hash.Decodes h.bytes.data.toList h := by
  intro c t hc
  obtain ⟨c1, h1, r1⟩ := bytes_decodes h.bytes c t hc
  rw [h.size_eq] at h1
  refine ⟨c1, ?_, r1⟩
  simp only [hash, h1, h.size_eq, ↓reduceDIte]

theorem peekAt_apply (k : Nat) (c : Cursor) : peekAt k c = .ok c.rest[k]? c := by
  have h : c.data[c.pos + k]? = c.data.data[c.pos + k]? := by simp only [getElem?_def]; rfl
  simp only [peekAt, Cursor.rest, List.getElem?_drop, Array.getElem?_toList, h]

end Read

namespace Word

theorem compactSize_small {v : Nat} (h : v < 0xfd) :
    (compactSize v).data.toList = [v.toUInt8] := by
  simp [compactSize, h]

theorem compactSize_two {v : Nat} (h1 : 0xfd ≤ v) (h2 : v ≤ 0xffff) :
    (compactSize v).data.toList = 0xfd :: (le 2 v).data.toList := by
  simp [compactSize, h2, Nat.not_lt.mpr h1]

theorem compactSize_four {v : Nat} (h1 : 0xffff < v) (h2 : v ≤ 0xffffffff) :
    (compactSize v).data.toList = 0xfe :: (le 4 v).data.toList := by
  simp [compactSize, h2, Nat.not_le.mpr h1, show ¬ v < 0xfd by omega]

theorem compactSize_eight {v : Nat} (h1 : 0xffffffff < v) :
    (compactSize v).data.toList = 0xff :: (le 8 v).data.toList := by
  simp [compactSize, Nat.not_le.mpr h1, show ¬ v < 0xfd by omega, show ¬ v ≤ 0xffff by omega]

@[simp] theorem compactSize_size (v : Nat) : (compactSize v).size = compactSizeLen v := by
  unfold compactSize compactSizeLen
  split_ifs <;> simp [ByteArray.size_append, ByteArray.size_push]

@[simp] theorem varBytes_size (b : ByteArray) :
    (varBytes b).size = compactSizeLen b.size + b.size := by
  simp [varBytes, ByteArray.size_append]

end Word

namespace Read

theorem checked_ok {w least v : Nat} {m : UInt8} {c c' : Cursor}
    (h : (if w < least then throw (DecodeError.nonCanonical w m) else pure w : Read Nat) c = .ok v c') :
    v = w ∧ c' = c ∧ least ≤ w := by
  split at h
  · cases h
  · cases h
    exact ⟨rfl, rfl, by omega⟩

theorem toNat_lt_of_ne_markers {m : UInt8} (h253 : m ≠ 0xfd) (h254 : m ≠ 0xfe) (h255 : m ≠ 0xff) :
    m.toNat < 0xfd := by
  revert m
  decide +kernel

theorem compactSize_canonical : compactSize.Canonical (fun v => (Word.compactSize v).data.toList) := by
  intro c v c' h
  obtain ⟨m, c1, hm, h⟩ := bind_ok.mp h
  rw [u8_canonical hm]
  dsimp only
  split at h
  · obtain ⟨x, c2, hx, h⟩ := bind_ok.mp h
    simp only [pure_bind] at h
    obtain ⟨rfl, rfl, hle⟩ := checked_ok h
    obtain ⟨hlt, hrest⟩ := natLE_ok hx
    rw [hrest, Word.compactSize_two hle (by omega)]
    rfl
  · obtain ⟨x, c2, hx, h⟩ := bind_ok.mp h
    simp only [pure_bind] at h
    obtain ⟨rfl, rfl, hle⟩ := checked_ok h
    obtain ⟨hlt, hrest⟩ := natLE_ok hx
    rw [hrest, Word.compactSize_four (by omega) (by omega)]
    rfl
  · obtain ⟨x, c2, hx, h⟩ := bind_ok.mp h
    simp only [pure_bind] at h
    obtain ⟨rfl, rfl, hle⟩ := checked_ok h
    obtain ⟨hlt, hrest⟩ := natLE_ok hx
    rw [hrest, Word.compactSize_eight (by omega)]
    rfl
  · simp only [pure_bind] at h
    obtain ⟨rfl, rfl, -⟩ := checked_ok h
    rename_i h253 h254 h255 _
    rw [Word.compactSize_small (toNat_lt_of_ne_markers h253 h254 h255)]
    simp

theorem natLE_decodes_of_lt {k v : Nat} (hv : v < 2 ^ (8 * k)) :
    (natLE k).Decodes (Word.le k v).data.toList v := by
  have h := natLE_decodes k v
  rwa [Nat.mod_eq_of_lt hv] at h

theorem compactSize_decodes {v : Nat} (hv : v < 2 ^ 64) :
    compactSize.Decodes (Word.compactSize v).data.toList v := by
  by_cases h1 : v < 0xfd
  · rw [Word.compactSize_small h1, ← List.append_nil [v.toUInt8]]
    refine (u8_decodes v.toUInt8).bind ?_
    have hv8 : v.toUInt8.toNat = v := by simp; omega
    split
    -- a value below `0xfd` is read as itself, never as a marker
    case h_4 =>
      simp only [pure_bind, hv8, Nat.not_lt_zero, ↓reduceIte]
      exact Decodes.pure v
    all_goals
      rename_i hm
      have := congrArg UInt8.toNat hm
      simp only [hv8, UInt8.reduceToNat] at this
      omega
  by_cases h2 : v ≤ 0xffff
  · rw [Word.compactSize_two (by omega) h2, ← List.singleton_append,
      ← List.append_nil (Word.le 2 v).data.toList]
    refine (u8_decodes 0xfd).bind ((natLE_decodes_of_lt (by omega)).bind ?_)
    simp only [pure_bind, if_neg (show ¬ v < 0xfd by omega)]
    exact Decodes.pure v
  by_cases h4 : v ≤ 0xffffffff
  · rw [Word.compactSize_four (by omega) h4, ← List.singleton_append,
      ← List.append_nil (Word.le 4 v).data.toList]
    refine (u8_decodes 0xfe).bind ((natLE_decodes_of_lt (by omega)).bind ?_)
    simp only [pure_bind, if_neg (show ¬ v < 0x10000 by omega)]
    exact Decodes.pure v
  · rw [Word.compactSize_eight (by omega), ← List.singleton_append,
      ← List.append_nil (Word.le 8 v).data.toList]
    refine (u8_decodes 0xff).bind ((natLE_decodes_of_lt (by omega)).bind ?_)
    simp only [pure_bind, if_neg (show ¬ v < 0x100000000 by omega)]
    exact Decodes.pure v

theorem count_ok {n : Nat} {c c' : Cursor} (h : count c = .ok n c') :
    c.rest = (Word.compactSize n).data.toList ++ c'.rest ∧ n ≤ c'.rest.length := by
  obtain ⟨m, c1, hm, h⟩ := bind_ok.mp h
  obtain ⟨c2, c3, hg, h⟩ := bind_ok.mp h
  cases hg
  split at h
  · cases h
  · rename_i hle
    cases h
    rw [Cursor.remaining_eq] at hle
    exact ⟨compactSize_canonical hm, by omega⟩

theorem count_decodes {n : Nat} (hn : n < 2 ^ 64) {c : Cursor} {t : List UInt8}
    (hc : c.rest = (Word.compactSize n).data.toList ++ t) (ht : n ≤ t.length) :
    ∃ c', count c = .ok n c' ∧ c'.rest = t := by
  obtain ⟨c1, h1, r1⟩ := compactSize_decodes hn c t hc
  refine ⟨c1, bind_ok.mpr ⟨n, c1, h1, ?_⟩, r1⟩
  have hle : ¬ n > c1.remaining := by rw [Cursor.remaining_eq, r1]; omega
  simp only [bind, EStateM.bind, get, getThe, MonadStateOf.get, EStateM.get, hle, ↓reduceIte]
  rfl

theorem varBytes_canonical : varBytes.Canonical (fun b => (Word.varBytes b).data.toList) := by
  intro c b c' h
  obtain ⟨n, c1, hn, hb⟩ := bind_ok.mp h
  obtain ⟨hsize, hrest⟩ := bytes_ok hb
  rw [(count_ok hn).1, hrest, ← hsize]
  simp [Word.varBytes]

theorem varBytes_decodes {b : ByteArray} (hb : b.size < 2 ^ 64) :
    varBytes.Decodes (Word.varBytes b).data.toList b := by
  intro c t hc
  simp only [Word.varBytes, ByteArray.data_append, Array.toList_append, List.append_assoc] at hc
  obtain ⟨c1, h1, r1⟩ := count_decodes hb hc (by simp)
  obtain ⟨c2, h2, r2⟩ := bytes_decodes b c1 t r1
  exact ⟨c2, bind_ok.mpr ⟨_, c1, h1, h2⟩, r2⟩

section Many

variable {α : Type} {r : Read α} {enc : α → List UInt8}

theorem many_length : ∀ {n : Nat} {c c' : Cursor} {xs : List α}, many r n c = .ok xs c' → xs.length = n
  | 0, _, _, _, h => by cases h; rfl
  | n + 1, c, c', xs, h => by
    obtain ⟨x, c1, _, h⟩ := bind_ok.mp h
    obtain ⟨ys, c2, hys, h⟩ := bind_ok.mp h
    cases h
    simp [many_length hys]

theorem many_canonical (hr : r.Canonical enc) : ∀ n, (many r n).Canonical (fun xs => xs.flatMap enc)
  | 0 => fun c xs c' h => by cases h; rfl
  | n + 1 => fun c xs c' h => by
    obtain ⟨x, c1, hx, h⟩ := bind_ok.mp h
    obtain ⟨ys, c2, hys, h⟩ := bind_ok.mp h
    cases h
    rw [hr hx, many_canonical hr n hys]
    simp

theorem many_decodes : ∀ (xs : List α), (∀ x ∈ xs, r.Decodes (enc x) x) →
    (many r xs.length).Decodes (xs.flatMap enc) xs
  | [], _ => Decodes.pure []
  | x :: xs, h => by
    have hxs := many_decodes xs fun y hy => h y (List.mem_cons_of_mem x hy)
    have := (h x List.mem_cons_self).bind
      (f := fun y => many r xs.length >>= fun ys => pure (y :: ys))
      (hxs.bind (f := fun ys => pure (x :: ys)) (Decodes.pure (x :: xs)))
    rw [List.append_nil] at this
    exact this

end Many

theorem finish_ok {u : Unit} {c c' : Cursor} (h : finish c = .ok u c') : c.rest = [] := by
  obtain ⟨c1, c2, hg, h⟩ := bind_ok.mp h
  cases hg
  split at h
  · rename_i h0
    rw [Cursor.remaining_eq] at h0
    exact List.eq_nil_of_length_eq_zero h0
  · cases h

theorem finish_of_nil {c : Cursor} (h : c.rest = []) : finish c = .ok () c := by
  have h0 : c.remaining = 0 := by rw [Cursor.remaining_eq, h]; rfl
  simp only [finish, bind, EStateM.bind, get, getThe, MonadStateOf.get, EStateM.get, h0,
    ↓reduceIte]
  rfl

end Read

end BitcoinLight
