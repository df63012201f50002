import BitcoinLight.Sighash.Message
import BitcoinLight.Proofs.SignatureMessage

set_option autoImplicit false

/-!
# The signature hash is the hash of the signature message

There are two ways to the hash a signature signs: build the message and hash it, or ask for the
hash directly. For legacy spends the direct route makes the message's checks again, in an order
of its own (the index against the inputs, the number of spent outputs, then "single" without its
output), so the two are compared here on every input (`hashForSignature_eq`).

Where a legacy signature has nothing to sign, the message is the 32 bytes of the error hash,
which is then signed as it is. A genuine legacy message is never those bytes: it holds the
version, an input, the lock time and the hash type, more than 32 bytes (`legacyPreimage_size`).
-/

namespace BitcoinLight

open Word

/-- The hash a signature signs, given its message: the legacy error hash stands for itself,
every other legacy or version-0 message is hashed twice with SHA-256, and a taproot message gets
the tagged hash "TapSighash". A failure to build the message is the failure. -/
def hashOfMessage (sv : SigVersion) : Except Error ByteArray → Except Error Hash256
  | .error e => .error e
  | .ok p =>
    match sv with
    | .base => .ok (if p = errorHash.bytes then errorHash else sha256d p)
    | .witnessV0 => .ok (sha256d p)
    | .taprootKeyPath | .taprootScriptPath => .ok (taggedHash "TapSighash" p)

/-! ## The legacy message is longer than a hash -/

theorem concatMap_size {α : Type} (f : α → ByteArray) (xs : List α) :
    (concatMap f xs).size = (xs.map fun x => (f x).size).sum := by
  suffices h : ∀ init : ByteArray, (xs.foldl (fun acc x => acc ++ f x) init).size =
      init.size + (xs.map fun x => (f x).size).sum by
    simpa [concatMap] using h ByteArray.empty
  induction xs with
  | nil => simp
  | cons x xs ih =>
    intro init
    simp only [List.foldl_cons, ih, ByteArray.size_append, List.map_cons, List.sum_cons]
    omega

theorem le_concatMap_size {α : Type} {f : α → ByteArray} {xs : List α} {x : α} (hx : x ∈ xs) :
    (f x).size ≤ (concatMap f xs).size := by
  rw [concatMap_size]
  exact List.le_sum_of_mem (List.mem_map_of_mem hx)

theorem TxIn.encode_size (x : TxIn) : 36 ≤ x.encode.size := by
  simp only [TxIn.encode, OutPoint.encode, ByteArray.size_append, x.prevout.txid.size_eq, u32,
    le_size]
  omega

theorem Tx.serializeWithoutWitness_size {tx : Tx} {x : TxIn} (hx : x ∈ tx.inputs) :
    44 ≤ tx.serializeWithoutWitness.size := by
  have h1 := le_concatMap_size (f := TxIn.encode) hx
  have h2 := TxIn.encode_size x
  rw [Tx.serializeWithoutWitness_eq]
  simp only [ByteArray.size_append, i32, u32, le_size]
  omega

theorem legacyView_inputs_ne_nil {tx : Tx} {i : Nat} (hi : i < tx.inputs.length)
    (code : ByteArray) (ht : HashType) : (legacyView tx i code ht).inputs ≠ [] := by
  unfold legacyView
  cases ht.anyoneCanPay
  · simpa [List.mapIdx_eq_nil_iff] using List.ne_nil_of_length_pos (by omega)
  · simp [List.getElem?_eq_getElem hi]

theorem legacyPreimage_size {tx : Tx} {i : Nat} {sc : ByteArray} {ht : HashType} {p : ByteArray}
    (h : legacyPreimage tx i sc ht = some p) : 32 < p.size := by
  rw [legacyPreimage_eq_view] at h
  split_ifs at h with hc
  injection h with h
  subst h
  have hi : i < tx.inputs.length := by omega
  obtain ⟨x, hx⟩ := List.exists_mem_of_ne_nil _
    (legacyView_inputs_ne_nil hi (Script.removeCodeSeparators sc) ht)
  have := Tx.serializeWithoutWitness_size hx
  simp only [ByteArray.size_append, u32, le_size]
  omega

theorem legacyPreimage_ne_errorHash {tx : Tx} {i : Nat} {sc : ByteArray} {ht : HashType}
    {p : ByteArray} (h : legacyPreimage tx i sc ht = some p) : p ≠ errorHash.bytes := by
  intro he
  have := legacyPreimage_size h
  rw [he, errorHash.size_eq] at this
  exact Nat.lt_irrefl 32 this

/-! ## The two routes agree -/

theorem serializeForSignature_base (tx : Tx) (i : Nat) (funding : List TxOut) (ht : HashType)
    (opts : TaprootOptions) :
    serializeForSignature tx i funding ht .base opts =
      if tx.inputs.length ≤ i then .ok errorHash.bytes
      else (singleFunding funding).map fun f =>
        (legacyPreimage tx i (legacyScriptCode tx i f.scriptPubKey) ht).getD errorHash.bytes := by
  simp only [serializeForSignature, ge_iff_le]
  split_ifs
  · rfl
  · cases singleFunding funding <;> rfl

theorem singleFunding_ok_iff {funding : List TxOut} :
    (∃ f, singleFunding funding = .ok f) ↔ funding.length = 1 := by
  unfold singleFunding
  split
  · simp
  · rename_i hne
    simp only [reduceCtorEq, exists_false, false_iff]
    intro hl
    obtain ⟨o, rfl⟩ := List.length_eq_one_iff.mp hl
    exact hne o rfl

theorem hashForSignature_eq (tx : Tx) (i : Nat) (funding : List TxOut) (ht : HashType)
    (sv : SigVersion) (opts : TaprootOptions) :
    hashForSignature tx i funding ht sv opts =
      hashOfMessage sv (serializeForSignature tx i funding ht sv opts) := by
  cases sv with
  | base =>
    rw [serializeForSignature_base]
    unfold hashForSignature
    by_cases hi : i < tx.inputs.length
    · rw [if_pos hi, if_neg (by omega)]
      cases singleFunding funding with
      | error e => rfl
      | ok f =>
        simp only [bind, Except.bind, Except.map]
        rcases hp : legacyPreimage tx i (legacyScriptCode tx i f.scriptPubKey) ht with _ | p
        · simp [hashOfMessage, pure, Except.pure]
        · simp [hashOfMessage, pure, Except.pure, legacyPreimage_ne_errorHash hp]
    · rw [if_neg hi, if_pos (by omega)]
      simp [hashOfMessage]
  | witnessV0 | taprootKeyPath | taprootScriptPath =>
    simp only [hashForSignature, bind, Except.bind]
    cases serializeForSignature tx i funding _ _ opts <;> rfl

theorem serializeForSignature_eq_errorHash (tx : Tx) (i : Nat) (funding : List TxOut)
    (ht : HashType) (opts : TaprootOptions) :
    serializeForSignature tx i funding ht .base opts = .ok errorHash.bytes ↔
      tx.inputs.length ≤ i ∨ (i < tx.inputs.length ∧ funding.length = 1 ∧ ht.base = .single ∧
        tx.outputs.length ≤ i) := by
  rw [serializeForSignature_base]
  by_cases hi : tx.inputs.length ≤ i
  · simp [hi]
  rw [if_neg hi]
  rcases hf : singleFunding funding with e | f
  · have hl : funding.length ≠ 1 := fun hl => by
      obtain ⟨f, hf'⟩ := singleFunding_ok_iff.mpr hl
      rw [hf] at hf'
      cases hf'
    simp [Except.map, hi, hl]
  · have hl : funding.length = 1 := singleFunding_ok_iff.mp ⟨f, hf⟩
    simp only [Except.map, Except.ok.injEq, hi, false_or, hl, true_and]
    have hview := legacyPreimage_eq_view tx i (legacyScriptCode tx i f.scriptPubKey) ht
    rcases hp : legacyPreimage tx i (legacyScriptCode tx i f.scriptPubKey) ht with _ | p
    · -- no message, so "single" has no output `i`
      rw [hp] at hview
      split_ifs at hview with hc
      have hs : ht.base = .single ∧ tx.outputs.length ≤ i := hc.resolve_left hi
      simp only [Option.getD_none, hs, and_true, true_iff]
      omega
    · -- a message, which is never the error hash
      rw [hp] at hview
      split_ifs at hview with hc
      simp only [Option.getD_some, legacyPreimage_ne_errorHash hp, false_iff]
      exact fun h => hc (.inr h.2)

/-- Asking for the signature hash directly gives the hash of the signature message on every
input: the same error where the message fails, the error hash itself where the legacy message is
its bytes, and otherwise the double SHA-256, or the tagged hash for taproot. The legacy message
is the error hash exactly when input `i` is missing, or when one output is spent and "single"
has no output `i`; a genuine legacy message never is. -/
theorem signature_hash_of_message (tx : Tx) (i : Nat) (funding : List TxOut) (ht : HashType)
    (sv : SigVersion) (opts : TaprootOptions) :
    hashForSignature tx i funding ht sv opts =
      hashOfMessage sv (serializeForSignature tx i funding ht sv opts) ∧
    (serializeForSignature tx i funding ht .base opts = .ok errorHash.bytes ↔
      tx.inputs.length ≤ i ∨ (i < tx.inputs.length ∧ funding.length = 1 ∧ ht.base = .single ∧
        tx.outputs.length ≤ i)) ∧
    ∀ sc p, legacyPreimage tx i sc ht = some p → p ≠ errorHash.bytes :=
  ⟨hashForSignature_eq tx i funding ht sv opts,
    serializeForSignature_eq_errorHash tx i funding ht opts,
    fun _ _ => legacyPreimage_ne_errorHash⟩

end BitcoinLight
