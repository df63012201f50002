import Mathlib
import BitcoinLight.Sighash.Preimage
import BitcoinLight.Proofs.TxCodec

set_option autoImplicit false

/-!
# What a signature message commits to

The legacy message is written as it goes, never building the transaction it encodes; here it is
shown equal to the encoding of that transaction (`legacyView`), followed by the hash type's code,
and missing exactly when input `i` is missing or "single" finds no output `i`.

Then, for each of the three formats, the message is shown to depend only on what the hash type
commits to. `SighashAgree` lists that for the legacy and version-0 formats, and `TaprootAgree`
adds what taproot signs besides: every sequence whatever the base type, the outputs spent, the
annex and the leaf. Scripts of inputs and witness data never appear in either list.
-/

namespace BitcoinLight

open Word

/-! ## Encodings of lists -/

@[simp] theorem concatMap_nil {α : Type} (f : α → ByteArray) : concatMap f [] = ByteArray.empty := rfl

@[simp] theorem concatMap_cons {α : Type} (f : α → ByteArray) (x : α) (xs : List α) :
    concatMap f (x :: xs) = f x ++ concatMap f xs := by
  apply ByteArray.ext
  apply Array.ext'
  simp [concatMap_toList]

@[simp] theorem concatMap_append {α : Type} (f : α → ByteArray) (xs ys : List α) :
    concatMap f (xs ++ ys) = concatMap f xs ++ concatMap f ys := by
  apply ByteArray.ext
  apply Array.ext'
  simp [concatMap_toList]

theorem concatMap_mapIdx {α β : Type} (f : Nat → α → β) (g : β → ByteArray) (xs : List α) :
    concatMap g (xs.mapIdx f) = concatMap (fun p => g (f p.2 p.1)) xs.zipIdx := by
  apply ByteArray.ext
  apply Array.ext'
  simp only [concatMap_toList, List.mapIdx_eq_zipIdx_map, List.flatMap_map]

theorem concatMap_map {α β : Type} (f : α → β) (g : β → ByteArray) (xs : List α) :
    concatMap g (xs.map f) = concatMap (fun x => g (f x)) xs := by
  apply ByteArray.ext
  apply Array.ext'
  simp [concatMap_toList, List.flatMap_map]

theorem concatMap_congr_map {α β : Type} {f : α → β} (g : β → ByteArray) {xs ys : List α}
    (h : xs.map f = ys.map f) : concatMap (fun x => g (f x)) xs = concatMap (fun x => g (f x)) ys := by
  rw [← concatMap_map, h, concatMap_map]

theorem getElem_eq_of_map_eq {α β : Type} {f : α → β} {xs ys : List α} (h : xs.map f = ys.map f)
    {k : Nat} (hk : k < xs.length) (hk' : k < ys.length) : f xs[k] = f ys[k] := by
  simpa [hk, hk'] using congrArg (fun l => l[k]?) h

/-! ## The legacy message -/

theorem Tx.serializeWithoutWitness_eq (tx : Tx) :
    tx.serializeWithoutWitness =
      i32 tx.version ++ (compactSize tx.inputs.length ++ concatMap TxIn.encode tx.inputs) ++
        (compactSize tx.outputs.length ++ concatMap TxOut.encode tx.outputs) ++ u32 tx.lockTime := by
  simp [Tx.serializeWithoutWitness, Tx.encode, ByteArray.append_assoc]

theorem legacyPreimage_eq_view (tx : Tx) (i : Nat) (sc : ByteArray) (ht : HashType) :
    legacyPreimage tx i sc ht =
      if tx.inputs.length ≤ i ∨ (ht.base = .single ∧ tx.outputs.length ≤ i) then none
      else some ((legacyView tx i (Script.removeCodeSeparators sc) ht).serializeWithoutWitness ++
        u32 ht.code) := by
  unfold legacyPreimage
  rcases hx : tx.inputs[i]? with _ | input
  · have hi : tx.inputs.length ≤ i := List.getElem?_eq_none_iff.mp hx
    simp [hi]
  have hi : i < tx.inputs.length := (List.getElem?_eq_some_iff.mp hx).1
  by_cases hs : ht.base = .single ∧ tx.outputs.length ≤ i
  · simp [hs]
  have hs' : ¬ (ht.base = .single ∧ i ≥ tx.outputs.length) := by simpa using hs
  have hr : ¬ (tx.inputs.length ≤ i ∨ (ht.base = .single ∧ tx.outputs.length ≤ i)) :=
    fun h => h.elim (by omega) hs
  dsimp only
  rw [if_neg hs', if_neg hr, Tx.serializeWithoutWitness_eq]
  simp only [legacyView]
  congr 4
  · -- the inputs: only input `i` with anyone-can-pay, every input otherwise
    cases ht.anyoneCanPay
    · simp only [Bool.false_eq_true, ↓reduceIte, List.length_mapIdx, concatMap_mapIdx]
    · simp [hx]
  · -- the outputs the base type covers
    cases hb : ht.base with
    | none => simp
    | single =>
      have ho : i < tx.outputs.length := by simp_all
      simp [List.getElem?_eq_getElem ho, ByteArray.append_assoc]
    | all => simp

/-- The legacy message is missing exactly when input `i` is, or output `i` with "single";
otherwise it is the encoding without witnesses of the transaction the signature sees, followed
by the code. -/
theorem legacy_message_encodes_signed_view (tx : Tx) (i : Nat) (sc : ByteArray) (ht : HashType) :
    (legacyPreimage tx i sc ht = none ↔
      tx.inputs.length ≤ i ∨ (ht.base = .single ∧ tx.outputs.length ≤ i)) ∧
    (¬ (tx.inputs.length ≤ i ∨ (ht.base = .single ∧ tx.outputs.length ≤ i)) →
      legacyPreimage tx i sc ht =
        some ((legacyView tx i (Script.removeCodeSeparators sc) ht).serializeWithoutWitness ++
          u32 ht.code)) := by
  rw [legacyPreimage_eq_view]
  constructor
  · split_ifs with h <;> simp [h]
  · intro h
    rw [if_neg h]

theorem sampleSpend_legacy_message :
    ¬ (Tx.sampleSpend.inputs.length ≤ 0 ∨
      ((⟨1⟩ : HashType).base = .single ∧ Tx.sampleSpend.outputs.length ≤ 0)) ∧
    legacyPreimage Tx.sampleSpend 0 ByteArray.empty ⟨1⟩ =
      some ((legacyView Tx.sampleSpend 0 (Script.removeCodeSeparators ByteArray.empty) ⟨1⟩
        ).serializeWithoutWitness ++ u32 1) :=
  ⟨by decide, (legacy_message_encodes_signed_view _ _ _ _).2 (by decide)⟩

/-! ## Agreement on what is signed -/

/-- Two transactions agree on everything a signature of input `i` under `ht` commits to in the
legacy and version-0 formats: version and lock time, the outpoint and sequence of input `i`,
without anyone-can-pay every outpoint and, with "all", every sequence, and the outputs the base
type covers. -/
structure SighashAgree (ht : HashType) (i : Nat) (tx tx' : Tx) : Prop where
  version : tx.version = tx'.version
  lockTime : tx.lockTime = tx'.lockTime
  prevout : tx.inputs[i]?.map TxIn.prevout = tx'.inputs[i]?.map TxIn.prevout
  sequence : tx.inputs[i]?.map TxIn.sequence = tx'.inputs[i]?.map TxIn.sequence
  prevouts : ht.anyoneCanPay = false → tx.inputs.map TxIn.prevout = tx'.inputs.map TxIn.prevout
  sequences : ht.anyoneCanPay = false → ht.base = .all →
    tx.inputs.map TxIn.sequence = tx'.inputs.map TxIn.sequence
  outputs : ht.base = .all → tx.outputs = tx'.outputs
  output : ht.base = .single → tx.outputs[i]? = tx'.outputs[i]?

namespace SighashAgree

variable {ht : HashType} {i : Nat} {tx tx' : Tx}

theorem inputs_le_iff (h : SighashAgree ht i tx tx') :
    tx.inputs.length ≤ i ↔ tx'.inputs.length ≤ i := by
  simpa using congrArg (· = none) h.prevout

theorem outputs_le_iff (h : SighashAgree ht i tx tx') (hb : ht.base = .single) :
    tx.outputs.length ≤ i ↔ tx'.outputs.length ≤ i := by
  simpa using congrArg (· = none) (h.output hb)

theorem input_prevout (h : SighashAgree ht i tx tx') (hi : i < tx.inputs.length)
    (hi' : i < tx'.inputs.length) : tx.inputs[i].prevout = tx'.inputs[i].prevout := by
  simpa [List.getElem?_eq_getElem hi, List.getElem?_eq_getElem hi'] using h.prevout

theorem input_sequence (h : SighashAgree ht i tx tx') (hi : i < tx.inputs.length)
    (hi' : i < tx'.inputs.length) : tx.inputs[i].sequence = tx'.inputs[i].sequence := by
  simpa [List.getElem?_eq_getElem hi, List.getElem?_eq_getElem hi'] using h.sequence

theorem prevouts_encode (h : SighashAgree ht i tx tx') (hacp : ht.anyoneCanPay = false) :
    concatMap (fun x => x.prevout.encode) tx.inputs = concatMap (fun x => x.prevout.encode) tx'.inputs :=
  concatMap_congr_map OutPoint.encode (h.prevouts hacp)

theorem sequences_encode (h : SighashAgree ht i tx tx') (hacp : ht.anyoneCanPay = false)
    (hb : ht.base = .all) :
    concatMap (fun x => u32 x.sequence) tx.inputs = concatMap (fun x => u32 x.sequence) tx'.inputs :=
  concatMap_congr_map u32 (h.sequences hacp hb)

theorem inputs_lt (h : SighashAgree ht i tx tx') (hi : i < tx.inputs.length) :
    i < tx'.inputs.length := by
  have := h.inputs_le_iff
  omega

theorem outputs_lt (h : SighashAgree ht i tx tx') (hb : ht.base = .single)
    (ho : i < tx.outputs.length) : i < tx'.outputs.length := by
  have := h.outputs_le_iff hb
  omega

theorem inputs_length (h : SighashAgree ht i tx tx') (hacp : ht.anyoneCanPay = false) :
    tx.inputs.length = tx'.inputs.length := by
  simpa using congrArg List.length (h.prevouts hacp)

end SighashAgree

theorem legacyView_congr {ht : HashType} {i : Nat} {tx tx' : Tx} (h : SighashAgree ht i tx tx')
    (code : ByteArray) : legacyView tx i code ht = legacyView tx' i code ht := by
  simp only [legacyView, Tx.mk.injEq, h.version, h.lockTime, true_and, and_true]
  constructor
  · cases hacp : ht.anyoneCanPay
    · -- every input, each seen through its outpoint and (where kept) its sequence
      have hp := h.prevouts hacp
      simp only [Bool.false_eq_true, ↓reduceIte]
      apply List.ext_getElem (by simpa using congrArg List.length hp)
      intro k hk hk'
      simp only [List.getElem_mapIdx, TxIn.mk.injEq, true_and]
      refine ⟨getElem_eq_of_map_eq hp (by simpa using hk) (by simpa using hk'), ?_⟩
      by_cases hki : k = i
      · subst hki
        simp [h.input_sequence (by simpa using hk) (by simpa using hk')]
      by_cases hb : ht.base = .all
      · simp [hb, getElem_eq_of_map_eq (h.sequences hacp hb) (by simpa using hk) (by simpa using hk')]
      · simp [hki, hb]
    · -- input `i` alone
      have hpo := h.prevout
      have hsq := h.sequence
      rcases hx : tx.inputs[i]? with _ | x <;> rcases hx' : tx'.inputs[i]? with _ | x' <;>
        simp_all
  · cases hb : ht.base with
    | none => rfl
    | single => simp [h.output hb]
    | all => exact h.outputs hb

theorem legacyPreimage_congr {ht : HashType} {i : Nat} {tx tx' : Tx} {sc sc' : ByteArray}
    (h : SighashAgree ht i tx tx')
    (hsc : Script.removeCodeSeparators sc = Script.removeCodeSeparators sc') :
    legacyPreimage tx i sc ht = legacyPreimage tx' i sc' ht := by
  rw [legacyPreimage_eq_view, legacyPreimage_eq_view, hsc, legacyView_congr h]
  simp only [h.inputs_le_iff]
  by_cases hb : ht.base = .single
  · simp only [hb, true_and, h.outputs_le_iff hb]
  · simp only [hb, false_and]

theorem witnessV0Preimage_congr {ht : HashType} {i : Nat} {tx tx' : Tx} {sc : ByteArray}
    {amount : Int64} (h : SighashAgree ht i tx tx') (hi : i < tx.inputs.length) :
    witnessV0Preimage tx i sc amount ht = witnessV0Preimage tx' i sc amount ht := by
  have hi' := h.inputs_lt hi
  simp only [witnessV0Preimage, checkInputIndex, List.getElem?_eq_getElem hi,
    List.getElem?_eq_getElem hi', bind, Except.bind, pure, Except.pure, h.input_prevout hi hi',
    h.input_sequence hi hi', h.version, h.lockTime]
  -- the three hashes, by what the hash type lets each of them see
  cases hacp : ht.anyoneCanPay
  · cases hb : ht.base with
    | all => simp [h.prevouts_encode hacp, h.sequences_encode hacp hb, h.outputs hb]
    | none => simp [h.prevouts_encode hacp]
    | single =>
      simp only [h.prevouts_encode hacp, h.output hb]
      cases tx'.outputs[i]? <;> simp
  · cases hb : ht.base with
    | all => simp [h.outputs hb]
    | none => simp
    | single =>
      simp only [h.output hb]
      cases tx'.outputs[i]? <;> simp

/-- Beyond what the other formats sign, a taproot signature commits to every sequence without
anyone-can-pay whatever the base type, to the outputs spent (all of them, or with anyone-can-pay
the one of input `i`), to the annex, and for a script spend to the leaf and the position of the
last code separator. -/
structure TaprootAgree (ht : HashType) (i : Nat) (tx tx' : Tx) (spent spent' : List TxOut)
    (scriptPath : Bool) (opts opts' : TaprootOptions) : Prop extends SighashAgree ht i tx tx' where
  sequencesAnyBase : ht.anyoneCanPay = false → ht.base ≠ .all →
    tx.inputs.map TxIn.sequence = tx'.inputs.map TxIn.sequence
  spentAll : ht.anyoneCanPay = false → spent = spent'
  spentInput : spent[i]? = spent'[i]?
  annex : opts.annexHash = opts'.annexHash
  leaf : scriptPath = true → opts.leafHash = opts'.leafHash ∧
    opts.codeSeparatorPos = opts'.codeSeparatorPos

namespace TaprootAgree

variable {ht : HashType} {i : Nat} {tx tx' : Tx} {spent spent' : List TxOut} {scriptPath : Bool}
  {opts opts' : TaprootOptions}

theorem allSequences_encode (h : TaprootAgree ht i tx tx' spent spent' scriptPath opts opts')
    (hacp : ht.anyoneCanPay = false) :
    concatMap (fun x => u32 x.sequence) tx.inputs = concatMap (fun x => u32 x.sequence) tx'.inputs := by
  by_cases hb : ht.base = .all
  · exact h.sequences_encode hacp hb
  · exact concatMap_congr_map u32 (h.sequencesAnyBase hacp hb)

end TaprootAgree

theorem taprootPreimage_congr {ht : HashType} {i : Nat} {tx tx' : Tx} {spent spent' : List TxOut}
    {scriptPath : Bool} {opts opts' : TaprootOptions}
    (h : TaprootAgree ht i tx tx' spent spent' scriptPath opts opts')
    (hi : i < tx.inputs.length) (hs : spent.length = tx.inputs.length)
    (hs' : spent'.length = tx'.inputs.length) (ho : ht.base = .single → i < tx.outputs.length) :
    taprootPreimage tx i spent ht scriptPath opts = taprootPreimage tx' i spent' ht scriptPath opts' := by
  by_cases hv : ht.validTaproot = true
  swap
  · -- both fail on the hash type alone
    simp only [taprootPreimage, Bool.not_eq_true', Bool.eq_false_iff.mpr hv, ↓reduceIte]
    rfl
  have hi' := h.inputs_lt hi
  have ho' : ht.base = .single → i < tx'.outputs.length := fun hb => h.outputs_lt hb (ho hb)
  have hleaf : scriptPath = true → opts.leafHash = opts'.leafHash := fun hsp => (h.leaf hsp).1
  have hpos : scriptPath = true → opts.codeSeparatorPos = opts'.codeSeparatorPos :=
    fun hsp => (h.leaf hsp).2
  -- In each case every check passes on both sides, and each part of the message rewrites to the
  -- other transaction's by the agreement the hash type asks for there.
  cases hacp : ht.anyoneCanPay <;> cases hb : ht.base <;> cases hsp : scriptPath <;>
    simp [taprootPreimage, hv, checkInputIndex, bind, Except.bind, pure, Except.pure,
      List.getElem?_eq_getElem hi, List.getElem?_eq_getElem hi', hs, hs', h.inputs_length,
      h.version, h.lockTime, h.annex, h.input_prevout hi hi', h.input_sequence hi hi',
      h.prevouts_encode, h.allSequences_encode, h.spentAll, h.spentInput, h.outputs, h.output, ho',
      hleaf, hpos, hacp, hb, hsp]

/-- A signature message depends on nothing its hash type does not commit to: transactions that
agree on what it commits to, with the same code (code separators aside), amount, spent outputs
and taproot extras, give the same message in each of the three formats, once the format's own
checks pass. -/
theorem signature_message_commitment_scope :
    (∀ (ht : HashType) (i : Nat) (tx tx' : Tx) (sc sc' : ByteArray), SighashAgree ht i tx tx' →
      Script.removeCodeSeparators sc = Script.removeCodeSeparators sc' →
      legacyPreimage tx i sc ht = legacyPreimage tx' i sc' ht) ∧
    (∀ (ht : HashType) (i : Nat) (tx tx' : Tx) (sc : ByteArray) (amount : Int64),
      SighashAgree ht i tx tx' → i < tx.inputs.length →
      witnessV0Preimage tx i sc amount ht = witnessV0Preimage tx' i sc amount ht) ∧
    (∀ (ht : HashType) (i : Nat) (tx tx' : Tx) (spent spent' : List TxOut) (scriptPath : Bool)
      (opts opts' : TaprootOptions), TaprootAgree ht i tx tx' spent spent' scriptPath opts opts' →
      i < tx.inputs.length → spent.length = tx.inputs.length → spent'.length = tx'.inputs.length →
      (ht.base = .single → i < tx.outputs.length) →
      taprootPreimage tx i spent ht scriptPath opts = taprootPreimage tx' i spent' ht scriptPath opts') :=
  ⟨fun _ _ _ _ _ _ h hsc => legacyPreimage_congr h hsc,
    fun _ _ _ _ _ _ h hi => witnessV0Preimage_congr h hi,
    fun _ _ _ _ _ _ _ _ _ h hi hs hs' ho => taprootPreimage_congr h hi hs hs' ho⟩

def Tx.twoInputs : Tx :=
  ⟨2, [⟨⟨Hash256.zero, 0⟩, ByteArray.empty, 0xffffffff⟩,
      ⟨⟨Hash256.zero, 1⟩, ByteArray.empty, 0xfffffffe⟩],
    [⟨7, ⟨#[0x51]⟩⟩], 0, []⟩

def Tx.twoInputsSigned : Tx :=
  { Tx.twoInputs with
    inputs := [⟨⟨Hash256.zero, 0⟩, ByteArray.empty, 0xffffffff⟩,
      ⟨⟨Hash256.zero, 1⟩, ⟨#[0x51]⟩, 0xfffffffe⟩]
    witnesses := [⟨[⟨#[1]⟩]⟩, ⟨[⟨#[2]⟩]⟩] }

theorem twoInputs_signing_ignores_scripts :
    legacyPreimage Tx.twoInputs 0 ⟨#[0xac]⟩ ⟨1⟩ =
      legacyPreimage Tx.twoInputsSigned 0 ⟨#[0xac]⟩ ⟨1⟩ ∧
    witnessV0Preimage Tx.twoInputs 0 ⟨#[0xac]⟩ 5 ⟨1⟩ =
      witnessV0Preimage Tx.twoInputsSigned 0 ⟨#[0xac]⟩ 5 ⟨1⟩ ∧
    taprootPreimage Tx.twoInputs 0 [⟨5, ⟨#[0x51]⟩⟩, ⟨6, ⟨#[0x51]⟩⟩] ⟨0⟩ false {} =
      taprootPreimage Tx.twoInputsSigned 0 [⟨5, ⟨#[0x51]⟩⟩, ⟨6, ⟨#[0x51]⟩⟩] ⟨0⟩ false {} := by
  have hall : SighashAgree ⟨1⟩ 0 Tx.twoInputs Tx.twoInputsSigned :=
    ⟨rfl, rfl, rfl, rfl, fun _ => rfl, fun _ _ => rfl, fun _ => rfl, fun _ => rfl⟩
  have hdefault : SighashAgree ⟨0⟩ 0 Tx.twoInputs Tx.twoInputsSigned :=
    ⟨rfl, rfl, rfl, rfl, fun _ => rfl, fun _ _ => rfl, fun _ => rfl, fun _ => rfl⟩
  obtain ⟨hlegacy, hv0, htap⟩ := signature_message_commitment_scope
  exact ⟨hlegacy _ _ _ _ _ _ hall rfl, hv0 _ _ _ _ _ _ hall (by decide),
    htap _ _ _ _ _ _ _ _ _ ⟨hdefault, fun _ _ => rfl, fun _ => rfl, rfl, rfl, fun _ => ⟨rfl, rfl⟩⟩
      (by decide) (by decide) (by decide) (by decide)⟩

end BitcoinLight
