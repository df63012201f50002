import Mathlib
import BitcoinLight.Proofs.ByteCodec

set_option autoImplicit false

/-!
# Transactions read back from their encoding

Reading a transaction accepts only the encoding written for it: every accepted byte string is
the serialization of the transaction read (`serialize_of_parse`). Conversely a transaction is
read back from its serialization when its lengths fit in 64 bits and its witness data is in a
form that writing keeps (none, or one stack per input with some stack non-empty), with one
exception: with no inputs and one output, the count bytes `00 01` after the version are taken
for the witness marker (`parse_serialize_iff`).

The reader decides the format by looking ahead at the two bytes after the version; the proofs
follow the same split, through the canonical and decoding laws of each part.
-/

namespace BitcoinLight

theorem foldl_append_toList {α : Type} (f : α → ByteArray) (xs : List α) (init : ByteArray) :
    (xs.foldl (fun acc x => acc ++ f x) init).data.toList =
      init.data.toList ++ xs.flatMap (fun x => (f x).data.toList) := by
  induction xs generalizing init with
  | nil => simp
  | cons x xs ih => simp [ih]

theorem concatMap_toList {α : Type} (f : α → ByteArray) (xs : List α) :
    (concatMap f xs).data.toList = xs.flatMap (fun x => (f x).data.toList) := by
  simp [concatMap, foldl_append_toList]

theorem Witness.encode_toList (w : Witness) :
    w.encode.data.toList =
      (Word.compactSize w.stack.length).data.toList ++
        w.stack.flatMap (fun x => (Word.varBytes x).data.toList) := by
  simp [Witness.encode, foldl_append_toList]

theorem witnessSection_eq (tx : Tx) (h : tx.witnesses.length = tx.inputs.length) :
    (List.range tx.inputs.length).flatMap (fun k => ((tx.witness? k).getD ⟨[]⟩).encode.data.toList) =
      tx.witnesses.flatMap (fun w => w.encode.data.toList) := by
  have hmap : (List.range tx.inputs.length).map (fun k => (tx.witness? k).getD ⟨[]⟩) = tx.witnesses := by
    apply List.ext_getElem
    · simp [h]
    · intro k h1 h2
      simp [Tx.witness?, List.getElem?_eq_getElem h2]
  rw [← hmap, List.flatMap_map]

theorem Tx.encode_toList (tx : Tx) (w : Bool) :
    (tx.encode w).data.toList =
      (Word.i32 tx.version).data.toList ++ (if w then [0, 1] else []) ++
      (Word.compactSize tx.inputs.length).data.toList ++
      tx.inputs.flatMap (fun x => x.encode.data.toList) ++
      (Word.compactSize tx.outputs.length).data.toList ++
      tx.outputs.flatMap (fun o => o.encode.data.toList) ++
      (if w then (List.range tx.inputs.length).flatMap
        (fun k => ((tx.witness? k).getD ⟨[]⟩).encode.data.toList) else []) ++
      (Word.u32 tx.lockTime).data.toList := by
  cases w <;> simp [Tx.encode, concatMap_toList]

theorem Word.compactSize_ne_nil (v : Nat) : (Word.compactSize v).data.toList ≠ [] := by
  unfold Word.compactSize
  split_ifs <;> simp

theorem Word.compactSize_head {v : Nat} {b : UInt8} (hb : b.toNat < 0xfd) :
    (Word.compactSize v).data.toList[0]? = some b ↔ v = b.toNat := by
  by_cases h1 : v < 0xfd
  · rw [Word.compactSize_small h1]
    constructor
    · intro h
      have h' : v.toUInt8 = b := by simpa using h
      rw [← h']
      simp
      omega
    · intro h
      subst h
      simp
  · have hne : v ≠ b.toNat := by omega
    have hmark : ∀ m : UInt8, 0xfd ≤ m.toNat → m ≠ b := fun m hm e => by subst e; omega
    by_cases h2 : v ≤ 0xffff
    · rw [Word.compactSize_two (by omega) h2]
      simp [hne, hmark 0xfd (by decide)]
    by_cases h4 : v ≤ 0xffffffff
    · rw [Word.compactSize_four (by omega) h4]
      simp [hne, hmark 0xfe (by decide)]
    · rw [Word.compactSize_eight (by omega)]
      simp [hne, hmark 0xff (by decide)]

theorem length_le_length_flatMap {α : Type} {xs : List α} {g : α → List UInt8}
    (hg : ∀ x ∈ xs, g x ≠ []) : xs.length ≤ (xs.flatMap g).length := by
  induction xs with
  | nil => simp
  | cons x xs ih =>
    have hx : 0 < (g x).length := List.length_pos_of_ne_nil (hg x List.mem_cons_self)
    have := ih fun y hy => hg y (List.mem_cons_of_mem x hy)
    simp only [List.flatMap_cons, List.length_append, List.length_cons]
    omega

theorem TxIn.encode_ne_nil (x : TxIn) : x.encode.data.toList ≠ [] := by
  have h : x.prevout.txid.bytes.data.toList ≠ [] := by
    rw [← List.length_pos_iff, Array.length_toList]
    simp [x.prevout.txid.size_eq]
  simp only [TxIn.encode, OutPoint.encode, ByteArray.data_append, Array.toList_append,
    List.append_assoc]
  exact List.append_ne_nil_of_left_ne_nil h _

theorem TxOut.encode_ne_nil (o : TxOut) : o.encode.data.toList ≠ [] := by
  simp [TxOut.encode, Word.i64, Word.le]

theorem length_le_encodings {α : Type} {xs : List α} {g : α → List UInt8} (rest : List UInt8)
    (hg : ∀ x, g x ≠ []) : xs.length ≤ (xs.flatMap g ++ rest).length := by
  rw [List.length_append]
  have : xs.length ≤ (xs.flatMap g).length := length_le_length_flatMap fun x _ => hg x
  omega

/-- Every count and length in the transaction fits in 64 bits, as the lengths of the machine's
vectors do: a compact size holds no more. -/
structure Tx.LengthsFit (tx : Tx) : Prop where
  inputCount : tx.inputs.length < 2 ^ 64
  outputCount : tx.outputs.length < 2 ^ 64
  scriptSigs : ∀ x ∈ tx.inputs, x.scriptSig.size < 2 ^ 64
  scriptPubKeys : ∀ o ∈ tx.outputs, o.scriptPubKey.size < 2 ^ 64
  stackLengths : ∀ w ∈ tx.witnesses, w.stack.length < 2 ^ 64
  itemSizes : ∀ w ∈ tx.witnesses, ∀ x ∈ w.stack, x.size < 2 ^ 64

namespace Read

variable {β : Type}

theorem discard_ok {α : Type} {x : Read α} {c c' : Cursor} {u : PUnit} (h : (discard x) c = .ok u c') :
    ∃ a, x c = .ok a c' := by
  simp only [discard, Functor.mapConst, EStateM.map, Function.comp] at h
  split at h
  · cases h; exact ⟨_, ‹_›⟩
  · cases h

theorem outPoint_canonical : outPoint.Canonical (fun o => o.encode.data.toList) := by
  intro c o c' h
  obtain ⟨hh, c1, h1, h⟩ := bind_ok.mp h
  obtain ⟨i, c2, h2, h⟩ := bind_ok.mp h
  cases h
  rw [hash_canonical h1, u32_canonical h2]
  simp [OutPoint.encode]

theorem txIn_canonical : txIn.Canonical (fun x => x.encode.data.toList) := by
  intro c x c' h
  obtain ⟨p, c1, h1, h⟩ := bind_ok.mp h
  obtain ⟨s, c2, h2, h⟩ := bind_ok.mp h
  obtain ⟨q, c3, h3, h⟩ := bind_ok.mp h
  cases h
  rw [outPoint_canonical h1, varBytes_canonical h2, u32_canonical h3]
  simp [TxIn.encode]

theorem txOut_canonical : txOut.Canonical (fun o => o.encode.data.toList) := by
  intro c o c' h
  obtain ⟨v, c1, h1, h⟩ := bind_ok.mp h
  obtain ⟨s, c2, h2, h⟩ := bind_ok.mp h
  cases h
  rw [i64_canonical h1, varBytes_canonical h2]
  simp [TxOut.encode]

theorem witness_canonical : witness.Canonical (fun w => w.encode.data.toList) := by
  intro c w c' h
  obtain ⟨n, c1, h1, h⟩ := bind_ok.mp h
  obtain ⟨items, c2, h2, h⟩ := bind_ok.mp h
  cases h
  rw [(count_ok h1).1, many_canonical varBytes_canonical n h2]
  dsimp only
  rw [Witness.encode_toList, many_length h2]
  simp

theorem tx_canonical {c c' : Cursor} {tx : Tx} (h : Read.tx c = .ok tx c') :
    tx.hasWitness = (c.rest[4]? == some 0 && c.rest[5]? == some 1) ∧
      c.rest = (tx.encode tx.hasWitness).data.toList ++ c'.rest := by
  obtain ⟨ver, c1, hv, h⟩ := bind_ok.mp h
  obtain ⟨m, c2, hm, h⟩ := bind_ok.mp h
  obtain ⟨f, c3, hf, h⟩ := bind_ok.mp h
  rw [peek, peekAt_apply] at hm
  rw [peekAt_apply] at hf
  cases hm
  cases hf
  have hr : c.rest = (Word.i32 ver).data.toList ++ c1.rest := i32_canonical hv
  have hlen : (Word.i32 ver).data.toList.length = 4 := by simp [Word.i32]
  have h4 : c.rest[4]? = c1.rest[0]? := by
    rw [hr, List.getElem?_append_right (by omega), hlen]
  have h5 : c.rest[5]? = c1.rest[1]? := by
    rw [hr, List.getElem?_append_right (by omega), hlen]
  rw [h4, h5]
  cases hseg : (c1.rest[0]? == some 0 && c1.rest[1]? == some 1)
  · simp only [hseg, Bool.false_eq_true, ↓reduceIte, Bool.false_and, pure_bind] at h
    obtain ⟨nIn, c4, h4, h⟩ := bind_ok.mp h
    obtain ⟨ins, c5, h5, h⟩ := bind_ok.mp h
    obtain ⟨nOut, c6, h6, h⟩ := bind_ok.mp h
    obtain ⟨outs, c7, h7, h⟩ := bind_ok.mp h
    obtain ⟨lock, c8, h8, h⟩ := bind_ok.mp h
    cases h
    have hw : Tx.hasWitness ⟨ver, ins, outs, lock, []⟩ = false := rfl
    rw [hw]
    refine ⟨rfl, ?_⟩
    rw [hr, (count_ok h4).1, many_canonical txIn_canonical nIn h5, (count_ok h6).1,
      many_canonical txOut_canonical nOut h7, u32_canonical h8, Tx.encode_toList]
    simp [many_length h5, many_length h7]
  · simp only [hseg, ↓reduceIte, Bool.true_and] at h
    obtain ⟨u, c2, hd, h⟩ := bind_ok.mp h
    obtain ⟨b, hb⟩ := discard_ok hd
    obtain ⟨nIn, c4, h4, h⟩ := bind_ok.mp h
    obtain ⟨ins, c5, h5, h⟩ := bind_ok.mp h
    obtain ⟨nOut, c6, h6, h⟩ := bind_ok.mp h
    obtain ⟨outs, c7, h7, h⟩ := bind_ok.mp h
    obtain ⟨wits, c8, h8, h⟩ := bind_ok.mp h
    split at h
    · obtain ⟨_, _, he, _⟩ := bind_ok.mp h
      cases he
    rename_i hne
    obtain ⟨lock, c9, h9, h⟩ := bind_ok.mp h
    cases h
    -- the two bytes read after the version are the marker the flag was decided on
    have hmark : b.data.toList = [0, 1] := by
      obtain ⟨hsize, hrest⟩ := bytes_ok hb
      obtain ⟨x, y, hxy⟩ := List.length_eq_two.mp (by simpa using hsize : b.data.toList.length = 2)
      simp only [beq_iff_eq, Bool.and_eq_true] at hseg
      rw [hrest, hxy] at hseg
      simp only [List.cons_append, List.getElem?_cons_zero, List.getElem?_cons_succ,
        Option.some.injEq] at hseg
      rw [hxy, hseg.1, hseg.2]
    have hwit : Tx.hasWitness ⟨ver, ins, outs, lock, wits⟩ = true := by
      simpa [Tx.hasWitness, List.all_eq_true] using hne
    rw [hwit]
    refine ⟨rfl, ?_⟩
    have hlen : wits.length = ins.length := by rw [many_length h8, many_length h5]
    rw [hr, (bytes_ok hb).2, hmark, (count_ok h4).1, many_canonical txIn_canonical nIn h5,
      (count_ok h6).1, many_canonical txOut_canonical nOut h7,
      many_canonical witness_canonical nIn h8, u32_canonical h9, Tx.encode_toList,
      if_pos rfl, if_pos rfl, witnessSection_eq _ hlen]
    simp [many_length h5, many_length h7]

theorem parse_ok {b : ByteArray} {tx : Tx} (h : Tx.parse b = .ok tx) :
    ∃ c, Read.tx (Cursor.start b) = .ok tx c ∧ c.rest = [] := by
  unfold Tx.parse at h
  split at h
  · rename_i t c2 hrun
    cases h
    obtain ⟨t', c1, h1, h⟩ := bind_ok.mp hrun
    obtain ⟨u, c3, h3, h⟩ := bind_ok.mp h
    cases h
    exact ⟨c1, h1, finish_ok h3⟩
  · cases h

theorem parse_of_tx {b : ByteArray} {tx : Tx} {c : Cursor} (h : Read.tx (Cursor.start b) = .ok tx c)
    (hc : c.rest = []) : Tx.parse b = .ok tx := by
  unfold Tx.parse
  rw [bind_of_ok h, bind_of_ok (finish_of_nil hc)]
  rfl

theorem discard_decodes {α : Type} {x : Read α} {bs : List UInt8} {a : α} (hx : x.Decodes bs a) :
    (discard x).Decodes bs () := by
  intro c t hc
  obtain ⟨c1, h1, r1⟩ := hx c t hc
  refine ⟨c1, ?_, r1⟩
  simp only [discard, Functor.mapConst, EStateM.map, Function.comp, h1]

theorem peekAt_bind_decodes {k : Option UInt8 → Read β} {j : Nat} {bs : List UInt8} {v : β}
    (hj : j < bs.length) (hk : (k bs[j]?).Decodes bs v) : (peekAt j >>= k).Decodes bs v := by
  intro c t hc
  have hpeek : c.rest[j]? = bs[j]? := by rw [hc, List.getElem?_append_left hj]
  obtain ⟨c1, h1, r1⟩ := hk c t hc
  refine ⟨c1, ?_, r1⟩
  rw [bind_of_ok (peekAt_apply j c), hpeek, h1]

theorem count_bind_decodes {k : Nat → Read β} {n : Nat} {bs : List UInt8} {v : β}
    (hn : n < 2 ^ 64) (hle : n ≤ bs.length) (hk : (k n).Decodes bs v) :
    (count >>= k).Decodes ((Word.compactSize n).data.toList ++ bs) v := by
  intro c t hc
  rw [List.append_assoc] at hc
  obtain ⟨c1, h1, r1⟩ := count_decodes hn hc (by simp; omega)
  obtain ⟨c2, h2, r2⟩ := hk c1 t r1
  exact ⟨c2, bind_ok.mpr ⟨n, c1, h1, h2⟩, r2⟩

theorem outPoint_decodes (o : OutPoint) : outPoint.Decodes o.encode.data.toList o := by
  have henc : o.encode.data.toList =
      o.txid.bytes.data.toList ++ ((Word.u32 o.index).data.toList ++ []) := by
    simp [OutPoint.encode]
  rw [henc]
  exact (hash_decodes o.txid).bind ((u32_decodes o.index).bind (Decodes.pure o))

theorem txIn_decodes {x : TxIn} (hx : x.scriptSig.size < 2 ^ 64) :
    txIn.Decodes x.encode.data.toList x := by
  have henc : x.encode.data.toList = x.prevout.encode.data.toList ++
      ((Word.varBytes x.scriptSig).data.toList ++ ((Word.u32 x.sequence).data.toList ++ [])) := by
    simp [TxIn.encode]
  rw [henc]
  exact (outPoint_decodes x.prevout).bind ((varBytes_decodes hx).bind
    ((u32_decodes x.sequence).bind (Decodes.pure x)))

theorem txOut_decodes {o : TxOut} (ho : o.scriptPubKey.size < 2 ^ 64) :
    txOut.Decodes o.encode.data.toList o := by
  have henc : o.encode.data.toList =
      (Word.i64 o.value).data.toList ++ ((Word.varBytes o.scriptPubKey).data.toList ++ []) := by
    simp [TxOut.encode]
  rw [henc]
  exact (i64_decodes o.value).bind ((varBytes_decodes ho).bind (Decodes.pure o))

theorem witness_decodes {w : Witness} (hlen : w.stack.length < 2 ^ 64)
    (hitems : ∀ x ∈ w.stack, x.size < 2 ^ 64) : witness.Decodes w.encode.data.toList w := by
  have henc : w.encode.data.toList = (Word.compactSize w.stack.length).data.toList ++
      (w.stack.flatMap (fun x => (Word.varBytes x).data.toList) ++ []) := by
    simp [Witness.encode_toList]
  have hle : w.stack.length ≤ (w.stack.flatMap (fun x => (Word.varBytes x).data.toList) ++ []).length := by
    rw [List.append_nil]
    refine length_le_length_flatMap fun x _ => ?_
    simp only [Word.varBytes, ByteArray.data_append, Array.toList_append]
    exact List.append_ne_nil_of_left_ne_nil (Word.compactSize_ne_nil x.size) _
  rw [henc]
  exact count_bind_decodes hlen hle
    ((many_decodes w.stack fun x hx => varBytes_decodes (hitems x hx)).bind (Decodes.pure w))

theorem tx_decodes_witness {tx : Tx} (hfit : tx.LengthsFit) (hw : tx.hasWitness = true)
    (hlen : tx.witnesses.length = tx.inputs.length) :
    Read.tx.Decodes (tx.encode true).data.toList tx := by
  rw [Tx.encode_toList, if_pos rfl, if_pos rfl, witnessSection_eq tx hlen]
  obtain ⟨ver, ins, outs, lock, wits⟩ := tx
  simp only at hlen hfit ⊢
  simp only [List.append_assoc]
  refine (i32_decodes ver).bind ?_
  refine peekAt_bind_decodes (j := 0) (by simp) ?_
  refine peekAt_bind_decodes (j := 1) (by simp) ?_
  simp only [List.cons_append, List.getElem?_cons_zero, List.getElem?_cons_succ, beq_self_eq_true,
    Bool.and_self, ↓reduceIte, Bool.true_and, List.nil_append]
  refine (discard_decodes (bytes_decodes ⟨#[0, 1]⟩)).bind ?_
  refine count_bind_decodes hfit.inputCount (length_le_encodings _ TxIn.encode_ne_nil) ?_
  refine (many_decodes ins fun x hx => txIn_decodes (hfit.scriptSigs x hx)).bind ?_
  refine count_bind_decodes hfit.outputCount (length_le_encodings _ TxOut.encode_ne_nil) ?_
  refine (many_decodes outs fun o ho => txOut_decodes (hfit.scriptPubKeys o ho)).bind ?_
  rw [← hlen]
  refine (many_decodes wits fun w hw => witness_decodes (hfit.stackLengths w hw)
    (hfit.itemSizes w hw)).bind ?_
  have hne : ¬ (wits.all fun w => w.stack.isEmpty) = true := by
    simpa [Tx.hasWitness, List.all_eq_true] using hw
  rw [if_neg hne, ← List.append_nil (Word.u32 lock).data.toList]
  exact (u32_decodes lock).bind (Decodes.pure _)

theorem plain_flag {ins : List TxIn} {outs : List TxOut} (rest : List UInt8)
    (hone : ¬ (ins = [] ∧ outs.length = 1)) :
    (((Word.compactSize ins.length).data.toList ++ (ins.flatMap (fun x => x.encode.data.toList) ++
      ((Word.compactSize outs.length).data.toList ++ rest)))[0]? == some 0 &&
    ((Word.compactSize ins.length).data.toList ++ (ins.flatMap (fun x => x.encode.data.toList) ++
      ((Word.compactSize outs.length).data.toList ++ rest)))[1]? == some 1) = false := by
  have hpos (v : Nat) : 0 < (Word.compactSize v).data.toList.length :=
    List.length_pos_of_ne_nil (Word.compactSize_ne_nil v)
  cases ins with
  | cons x xs =>
    -- some input: the first byte is a count of at least one
    have h0 : ((Word.compactSize (xs.length + 1)).data.toList[0]? == some 0) = false := by
      rw [beq_eq_false_iff_ne, Ne, Word.compactSize_head (by decide)]
      simp
    rw [List.getElem?_append_left (hpos _), List.length_cons, h0, Bool.false_and]
  | nil =>
    -- no input: the first byte is zero, and the second starts the count of outputs
    have h1 : ((Word.compactSize outs.length).data.toList[0]? == some 1) = false := by
      rw [beq_eq_false_iff_ne, Ne, Word.compactSize_head (by decide)]
      simpa using hone
    rw [List.length_nil, Word.compactSize_small (by decide)]
    simp only [List.flatMap_nil, List.nil_append, List.cons_append, List.getElem?_cons_succ,
      List.getElem?_append_left (hpos _), h1, Bool.and_false]

theorem tx_decodes_plain {tx : Tx} (hfit : tx.LengthsFit) (hw : tx.witnesses = [])
    (hone : ¬ (tx.inputs = [] ∧ tx.outputs.length = 1)) :
    Read.tx.Decodes (tx.encode false).data.toList tx := by
  rw [Tx.encode_toList, if_neg Bool.false_ne_true, if_neg Bool.false_ne_true]
  obtain ⟨ver, ins, outs, lock, wits⟩ := tx
  simp only at hw hfit hone ⊢
  subst hw
  simp only [List.append_assoc, List.append_nil]
  refine (i32_decodes ver).bind ?_
  have hlen : 1 < ((Word.compactSize ins.length).data.toList ++
      (ins.flatMap (fun x => x.encode.data.toList) ++ ((Word.compactSize outs.length).data.toList ++
        ((outs.flatMap (fun o => o.encode.data.toList)) ++ (Word.u32 lock).data.toList)))).length := by
    have h1 := List.length_pos_of_ne_nil (Word.compactSize_ne_nil ins.length)
    have h2 := List.length_pos_of_ne_nil (Word.compactSize_ne_nil outs.length)
    simp only [List.length_append]
    omega
  refine peekAt_bind_decodes (j := 0) (by omega) ?_
  refine peekAt_bind_decodes (j := 1) hlen ?_
  simp only [plain_flag _ hone, Bool.false_eq_true, ↓reduceIte, Bool.false_and, pure_bind]
  refine count_bind_decodes hfit.inputCount (length_le_encodings _ TxIn.encode_ne_nil) ?_
  refine (many_decodes ins fun x hx => txIn_decodes (hfit.scriptSigs x hx)).bind ?_
  refine count_bind_decodes hfit.outputCount (length_le_encodings _ TxOut.encode_ne_nil) ?_
  refine (many_decodes outs fun o ho => txOut_decodes (hfit.scriptPubKeys o ho)).bind ?_
  rw [← List.append_nil (Word.u32 lock).data.toList]
  exact (u32_decodes lock).bind (Decodes.pure _)

end Read

theorem Cursor.rest_start (b : ByteArray) : (Cursor.start b).rest = b.data.toList := by
  simp [Cursor.start, Cursor.rest]

theorem serialize_of_parse {b : ByteArray} {tx : Tx} (h : Tx.parse b = .ok tx) :
    tx.serialize = b := by
  obtain ⟨c, hread, hnil⟩ := Read.parse_ok h
  have hb := (Read.tx_canonical hread).2
  rw [Cursor.rest_start, hnil, List.append_nil] at hb
  exact ByteArray.ext (Array.ext' hb.symm)

/-- The witness data is absent, or has one stack per input and some stack non-empty: the two
forms that writing keeps apart. -/
def Tx.WitnessesWritable (tx : Tx) : Prop :=
  tx.witnesses = [] ∨ (tx.witnesses.length = tx.inputs.length ∧ tx.hasWitness = true)

theorem Tx.WitnessesWritable.hasWitness_eq_false {tx : Tx} (hw : tx.WitnessesWritable)
    (h : tx.hasWitness = false) : tx.witnesses = [] := by
  rcases hw with hw | ⟨-, hw⟩
  · exact hw
  · rw [hw] at h; cases h

theorem Tx.encode_false_marker {tx : Tx} (hin : tx.inputs = []) (hout : tx.outputs.length = 1) :
    (tx.encode false).data.toList[4]? = some 0 ∧ (tx.encode false).data.toList[5]? = some 1 := by
  have hver : (Word.i32 tx.version).data.toList.length = 4 := by simp [Word.i32]
  rw [Tx.encode_toList, hin, hout, Word.compactSize_small (by decide),
    Word.compactSize_small (by decide)]
  simp [List.getElem?_append_right, hver]

/-- Written and read back, a transaction whose lengths fit and whose witness data is in a form
that writing keeps is read as itself, except when it has no inputs and one output: then the
zero count of inputs and the count of one output read as the witness marker. -/
theorem parse_serialize_iff {tx : Tx} (hfit : tx.LengthsFit) (hw : tx.WitnessesWritable) :
    Tx.parse tx.serialize = .ok tx ↔ ¬ (tx.inputs = [] ∧ tx.outputs.length = 1) := by
  constructor
  · rintro h ⟨hin, hout⟩
    have hnone : tx.hasWitness = false := by
      rcases hw with hw | ⟨hlen, -⟩
      · simp [Tx.hasWitness, hw]
      · rw [hin, List.length_nil, List.length_eq_zero_iff] at hlen
        simp [Tx.hasWitness, hlen]
    obtain ⟨c, hread, -⟩ := Read.parse_ok h
    have hflag := (Read.tx_canonical hread).1
    obtain ⟨h4, h5⟩ := Tx.encode_false_marker hin hout
    rw [Cursor.rest_start, show tx.serialize = tx.encode false by rw [Tx.serialize, hnone], h4, h5,
      hnone] at hflag
    cases hflag
  · intro hone
    cases hhas : tx.hasWitness
    · have hdec := Read.tx_decodes_plain hfit (hw.hasWitness_eq_false hhas) hone
      obtain ⟨c, hread, hnil⟩ := hdec (Cursor.start tx.serialize) []
        (by rw [Cursor.rest_start, List.append_nil, Tx.serialize, hhas])
      exact Read.parse_of_tx hread hnil
    · have hlen : tx.witnesses.length = tx.inputs.length := by
        rcases hw with hw | ⟨hlen, -⟩
        · simp [Tx.hasWitness, hw] at hhas
        · exact hlen
      have hdec := Read.tx_decodes_witness hfit hhas hlen
      obtain ⟨c, hread, hnil⟩ := hdec (Cursor.start tx.serialize) []
        (by rw [Cursor.rest_start, List.append_nil, Tx.serialize, hhas])
      exact Read.parse_of_tx hread hnil

/-- Every accepted encoding is the one written, and a transaction whose lengths fit and whose
witness data writing keeps is read back from its encoding exactly when it does not have zero
inputs and one output. -/
theorem transaction_encoding_roundtrip (b : ByteArray) (tx : Tx) :
    (Tx.parse b = .ok tx → tx.serialize = b) ∧
    (tx.LengthsFit → tx.WitnessesWritable →
      (Tx.parse tx.serialize = .ok tx ↔ ¬ (tx.inputs = [] ∧ tx.outputs.length = 1))) :=
  ⟨serialize_of_parse, parse_serialize_iff⟩

def Tx.sampleSpend : Tx :=
  ⟨2, [⟨⟨Hash256.zero, 0⟩, ByteArray.empty, 0xffffffff⟩], [⟨7, ⟨#[0x51]⟩⟩], 0,
    [⟨[⟨#[1]⟩]⟩]⟩

theorem Tx.sampleSpend_lengthsFit : Tx.sampleSpend.LengthsFit where
  inputCount := by decide
  outputCount := by decide
  scriptSigs := by decide
  scriptPubKeys := by decide
  stackLengths := by decide
  itemSizes := by decide

theorem sampleSpend_roundtrip :
    Tx.sampleSpend.LengthsFit ∧ Tx.sampleSpend.WitnessesWritable ∧
      Tx.parse Tx.sampleSpend.serialize = .ok Tx.sampleSpend :=
  ⟨Tx.sampleSpend_lengthsFit, .inr ⟨rfl, rfl⟩,
    ((transaction_encoding_roundtrip Tx.sampleSpend.serialize Tx.sampleSpend).2
      Tx.sampleSpend_lengthsFit (.inr ⟨rfl, rfl⟩)).mpr (by simp [Tx.sampleSpend])⟩

def Tx.loneOutput : Tx := ⟨2, [], [⟨7, ⟨#[0x51]⟩⟩], 0, []⟩

theorem lone_output_not_read_back :
    Tx.loneOutput.witnesses = [] ∧ Tx.parse Tx.loneOutput.serialize ≠ .ok Tx.loneOutput := by
  have hfit : Tx.loneOutput.LengthsFit :=
    ⟨by decide, by decide, by decide, by decide, by decide, by decide⟩
  refine ⟨rfl, fun h => ?_⟩
  exact (parse_serialize_iff hfit (.inl rfl)).mp h ⟨rfl, rfl⟩

end BitcoinLight
