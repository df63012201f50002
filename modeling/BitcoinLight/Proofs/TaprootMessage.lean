import BitcoinLight.Proofs.SignatureMessage

set_option autoImplicit false

/-!
# When a taproot message can be built, and how long it is

Building a taproot signature message (BIP341, with the BIP342 extension for script spends) makes
five checks, in this order: the hash type is one taproot accepts, the input exists, every input
has its spent output, "single" has an output at the input's index, and a script spend has its
leaf. A message is built exactly when all five pass, and a refusal names the first that fails
(`taprootRefusal`).

A message starts with the epoch byte 0 and has a length fixed by its shape: 175 bytes for "all"
without anyone-can-pay, 32 less without outputs ("none"), 32 more with an annex, 37 more for a
script spend, and with anyone-can-pay the hashes of every input's data (128 bytes) and the input
index (4) give way to the input's own outpoint, amount, script and sequence. For the 34-byte
script of a taproot output this is BIP341's count 174 - 49 acp - 32 none + 32 annex, after the
epoch byte and before the script extension.
-/

namespace BitcoinLight

open Word

/-! ## Sizes of the parts -/

@[simp] theorem OutPoint.encode_size (o : OutPoint) : o.encode.size = 36 := by
  simp [OutPoint.encode, ByteArray.size_append, o.txid.size_eq, u32]

theorem HashType.validTaproot_iff (ht : HashType) :
    ht.validTaproot = true ↔ ht.code ≤ 0x03 ∨ 0x81 ≤ ht.code ∧ ht.code ≤ 0x83 := by
  simp [HashType.validTaproot]

theorem checkInputIndex_of_lt {tx : Tx} {i : Nat} (h : i < tx.inputs.length) :
    checkInputIndex tx i = .ok tx.inputs[i] := by
  simp [checkInputIndex, List.getElem?_eq_getElem h]

/-! ## The checks -/

/-- The first check a taproot message of input `i` fails: the hash type, the input, the number of
spent outputs, the output "single" signs, the leaf of a script spend. -/
def taprootRefusal (tx : Tx) (i : Nat) (prevouts : List TxOut) (ht : HashType) (scriptPath : Bool)
    (opts : TaprootOptions) : Option Error :=
  if ¬(ht.code ≤ 0x03 ∨ 0x81 ≤ ht.code ∧ ht.code ≤ 0x83) then some (.invalidHashType ht.code)
  else if tx.inputs.length ≤ i then some (.inputIndex i tx.inputs.length)
  else if prevouts.length ≠ tx.inputs.length then
    some (.prevoutCount tx.inputs.length prevouts.length)
  else if ht.base = .single ∧ tx.outputs.length ≤ i then some (.inputIndex i tx.outputs.length)
  else if scriptPath = true ∧ opts.leafHash = none then
    some (.invalidArgument "script-path signature hash needs a tapleaf hash")
  else none

section

variable {tx : Tx} {i : Nat} {prevouts : List TxOut} {ht : HashType} {scriptPath : Bool}
  {opts : TaprootOptions}

theorem taprootRefusal_eq_none_iff :
    taprootRefusal tx i prevouts ht scriptPath opts = none ↔
      (ht.code ≤ 0x03 ∨ 0x81 ≤ ht.code ∧ ht.code ≤ 0x83) ∧ i < tx.inputs.length ∧
      prevouts.length = tx.inputs.length ∧ (ht.base = .single → i < tx.outputs.length) ∧
      (scriptPath = true → opts.leafHash.isSome) := by
  constructor
  · intro h
    unfold taprootRefusal at h
    split_ifs at h with hv hi hp ho hl
    refine ⟨hv, Nat.lt_of_not_le hi, by simpa using hp, fun hs => ?_, fun hs => ?_⟩
    · exact Nat.lt_of_not_le fun hle => ho ⟨hs, hle⟩
    · exact Option.isSome_iff_ne_none.mpr fun hn => hl ⟨hs, hn⟩
  · rintro ⟨hv, hi, hp, ho, hl⟩
    have ho' : ¬(ht.base = .single ∧ tx.outputs.length ≤ i) := by
      rintro ⟨hs, hle⟩
      have := ho hs
      omega
    have hl' : ¬(scriptPath = true ∧ opts.leafHash = none) := by
      rintro ⟨hs, hn⟩
      simpa [hn] using hl hs
    simp [taprootRefusal, hv, hp, ho', hl', Nat.not_le.mpr hi]

theorem exists_single_output (ho : ¬(ht.base = .single ∧ tx.outputs.length ≤ i)) :
    ∃ o, ht.base = .single → tx.outputs[i]? = some o := by
  by_cases hs : ht.base = .single
  · exact ⟨_, fun _ => List.getElem?_eq_getElem (Nat.lt_of_not_le fun hle => ho ⟨hs, hle⟩)⟩
  · exact ⟨TxOut.null, fun h => absurd h hs⟩

theorem taprootPreimage_of_refusal {e : Error}
    (h : taprootRefusal tx i prevouts ht scriptPath opts = some e) :
    taprootPreimage tx i prevouts ht scriptPath opts = .error e := by
  by_cases hv : ht.validTaproot = true
  swap
  · -- the hash type is checked first
    have hbad : ¬(ht.code ≤ 0x03 ∨ 0x81 ≤ ht.code ∧ ht.code ≤ 0x83) := by
      rwa [← HashType.validTaproot_iff]
    simp only [taprootRefusal, if_pos hbad, Option.some.injEq] at h
    simp [taprootPreimage, hv, ← h, throw, throwThe, MonadExceptOf.throw, bind, Except.bind]
  unfold taprootRefusal at h
  rw [if_neg (not_not.mpr ((HashType.validTaproot_iff ht).mp hv))] at h
  split_ifs at h with hi hp ho hl <;> cases h
  · simp [taprootPreimage, hv, checkInputIndex, List.getElem?_eq_none hi, bind, Except.bind]
  all_goals have hin := checkInputIndex_of_lt (Nat.lt_of_not_le hi)
  · simp [taprootPreimage, hv, hin, hp, throw, throwThe, MonadExceptOf.throw, bind, Except.bind]
  · simp [taprootPreimage, hv, hin, hp, ho.1, List.getElem?_eq_none ho.2, throw, throwThe,
      MonadExceptOf.throw, bind, Except.bind]
  · -- the leaf is asked for after the output of "single", which is there
    obtain ⟨out, hout⟩ := exists_single_output ho
    cases hb : ht.base <;>
      simp [taprootPreimage, hv, hin, hp, hb, hout, hl.1, hl.2, throw, throwThe,
        MonadExceptOf.throw, bind, Except.bind, pure, Except.pure]

/-- With every check passed, the message is built: it starts with the epoch byte 0, and its size is
fixed by the base type, the annex, the spend path and, with anyone-can-pay, the script of the
output spent. -/
theorem taprootPreimage_of_no_refusal (h : taprootRefusal tx i prevouts ht scriptPath opts = none) :
    ∃ p, taprootPreimage tx i prevouts ht scriptPath opts = .ok p ∧ p[0]? = some 0 ∧
      ∃ spent, prevouts[i]? = some spent ∧
        (p.size : ℤ) = 1 + 174 - (if ht.base = .none then 32 else 0) +
          (if opts.annexHash.isSome then 32 else 0) + (if scriptPath then 37 else 0) +
          (if ht.anyoneCanPay then
            (compactSizeLen spent.scriptPubKey.size + spent.scriptPubKey.size : ℤ) - 84 else 0) := by
  obtain ⟨hv, hi, hp, ho, hl⟩ := taprootRefusal_eq_none_iff.mp h
  replace hv := (HashType.validTaproot_iff ht).mpr hv
  have hin := checkInputIndex_of_lt hi
  have hpre : prevouts[i]? = some prevouts[i] := List.getElem?_eq_getElem (hp ▸ hi)
  have hfirst : ((ByteArray.empty.push 0).push ht.byte)[0] = 0 := rfl
  -- the output "single" signs and the leaf of a script spend, where they are asked for
  have ho' : ¬(ht.base = .single ∧ tx.outputs.length ≤ i) := by
    rintro ⟨hs, hle⟩
    have := ho hs
    omega
  obtain ⟨out, hout⟩ := exists_single_output ho'
  obtain ⟨lh, hlh⟩ : ∃ lh, scriptPath = true → opts.leafHash = some lh := by
    cases hl' : opts.leafHash with
    | some lh => exact ⟨lh, fun _ => rfl⟩
    | none => exact ⟨Hash256.zero, fun hs => by simpa [hl'] using hl hs⟩
  have hannex : ((opts.annexHash.map Hash256.bytes).getD ByteArray.empty).size =
      if opts.annexHash.isSome then 32 else 0 := by
    cases opts.annexHash <;> simp [Hash256.size_eq]
  -- each part's size is a sum of the constants its own flags select
  cases hb : ht.base <;> cases hsp : scriptPath <;>
    simp [taprootPreimage, hv, hin, hp, hb, hsp, hout, hlh, hpre, hannex, hfirst, bind,
      Except.bind, pure, Except.pure, ByteArray.size_append, ByteArray.size_push, Hash256.size_eq,
      u32, i32, i64, apply_ite ByteArray.size] <;>
    split_ifs <;> omega

theorem taprootRefusal_eq_none_of_ok {p : ByteArray}
    (h : taprootPreimage tx i prevouts ht scriptPath opts = .ok p) :
    taprootRefusal tx i prevouts ht scriptPath opts = none := by
  cases hr : taprootRefusal tx i prevouts ht scriptPath opts with
  | none => rfl
  | some e =>
    rw [taprootPreimage_of_refusal hr] at h
    cases h

theorem taprootRefusal_of_error {e : Error}
    (h : taprootPreimage tx i prevouts ht scriptPath opts = .error e) :
    taprootRefusal tx i prevouts ht scriptPath opts = some e := by
  cases hr : taprootRefusal tx i prevouts ht scriptPath opts with
  | none =>
    obtain ⟨p, hp, -⟩ := taprootPreimage_of_no_refusal hr
    rw [hp] at h
    cases h
  | some e' =>
    rw [taprootPreimage_of_refusal hr] at h
    cases h
    rfl

end

/-- A taproot signature message is built exactly when the hash type is one taproot accepts, the
input exists, every input has its spent output, "single" has its output and a script spend its
leaf; a refusal is the first of these checks that fails. A message starts with the epoch byte 0
and is 175 bytes long for "all", less 32 for "none", plus 32 with an annex and 37 for a script
spend; anyone-can-pay trades 84 bytes of hashes and index for the spent output's script and its
length. For the 34-byte script of a taproot output that is BIP341's 174 - 49 acp - 32 none +
32 annex after the epoch byte, with the script extension on top. -/
theorem taproot_message_checks_and_length (tx : Tx) (i : Nat) (prevouts : List TxOut)
    (ht : HashType) (scriptPath : Bool) (opts : TaprootOptions) :
    ((∃ p, taprootPreimage tx i prevouts ht scriptPath opts = .ok p) ↔
      (ht.code ≤ 0x03 ∨ 0x81 ≤ ht.code ∧ ht.code ≤ 0x83) ∧ i < tx.inputs.length ∧
      prevouts.length = tx.inputs.length ∧ (ht.base = .single → i < tx.outputs.length) ∧
      (scriptPath = true → opts.leafHash.isSome)) ∧
    (∀ e, taprootPreimage tx i prevouts ht scriptPath opts = .error e ↔
      taprootRefusal tx i prevouts ht scriptPath opts = some e) ∧
    ∀ p, taprootPreimage tx i prevouts ht scriptPath opts = .ok p →
      p[0]? = some 0 ∧ ∃ spent, prevouts[i]? = some spent ∧
        (p.size : ℤ) = 1 + 174 - (if ht.base = .none then 32 else 0) +
          (if opts.annexHash.isSome then 32 else 0) + (if scriptPath then 37 else 0) +
          (if ht.anyoneCanPay then
            (compactSizeLen spent.scriptPubKey.size + spent.scriptPubKey.size : ℤ) - 84 else 0) ∧
        (spent.scriptPubKey.size = 34 →
          (p.size : ℤ) = 1 + (174 - (if ht.anyoneCanPay then 49 else 0) -
            (if ht.base = .none then 32 else 0) + (if opts.annexHash.isSome then 32 else 0)) +
            (if scriptPath then 37 else 0)) := by
  refine ⟨⟨?_, ?_⟩, fun e => ⟨taprootRefusal_of_error, taprootPreimage_of_refusal⟩, ?_⟩
  · rintro ⟨p, hp⟩
    exact taprootRefusal_eq_none_iff.mp (taprootRefusal_eq_none_of_ok hp)
  · intro hc
    obtain ⟨p, hp, -⟩ := taprootPreimage_of_no_refusal (taprootRefusal_eq_none_iff.mpr hc)
    exact ⟨p, hp⟩
  · intro p hp
    obtain ⟨p', hp', h0, spent, hs, hsize⟩ :=
      taprootPreimage_of_no_refusal (taprootRefusal_eq_none_of_ok hp)
    rw [hp, Except.ok.injEq] at hp'
    subst hp'
    refine ⟨h0, spent, hs, hsize, fun h34 => ?_⟩
    -- the script's length takes one byte of its own
    have hcs : compactSizeLen spent.scriptPubKey.size = 1 := by simp [compactSizeLen, h34]
    rw [hsize, hcs, h34]
    split_ifs <;> omega

def zeroKeyOutput : TxOut := ⟨5, Script.p2trScript Hash256.zero.bytes⟩

/-- A key-path signature of "all" with anyone-can-pay over a taproot output, as BIP341 counts it:
174 - 49 bytes after the epoch byte. -/
theorem zeroKeyOutput_anyoneCanPay_message_length :
    ∃ p, taprootPreimage Tx.sampleSpend 0 [zeroKeyOutput] ⟨0x81⟩ false {} = .ok p ∧
      p.size = 1 + 174 - 49 := by
  obtain ⟨hok, -, hlen⟩ :=
    taproot_message_checks_and_length Tx.sampleSpend 0 [zeroKeyOutput] ⟨0x81⟩ false {}
  obtain ⟨p, hp⟩ := hok.mpr ⟨by decide, by decide, rfl, by decide, by decide⟩
  obtain ⟨-, spent, hs, -, h34⟩ := hlen p hp
  simp only [List.getElem?_cons_zero, Option.some.injEq] at hs
  subst hs
  have hsize := h34 (by simp [zeroKeyOutput, Script.p2trScript, Script.withPrefix,
    ByteArray.size_append, Hash256.size_eq])
  refine ⟨p, hp, ?_⟩
  have hacp : (⟨0x81⟩ : HashType).anyoneCanPay = true := by decide
  have hbase : (⟨0x81⟩ : HashType).base = .all := by decide
  simp [hacp, hbase] at hsize
  omega

end BitcoinLight
