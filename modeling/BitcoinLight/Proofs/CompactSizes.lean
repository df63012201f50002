import BitcoinLight.Proofs.ByteCodec

set_option autoImplicit false

/-!
# Compact sizes are a canonical code

Every parser of the library reads counts and lengths as compact sizes, so everything it accepts
having one written form rests on the facts here. A compact size is read back from its encoding
wherever the encoding stands and whatever follows it, and the reader then stands just past the
encoding, `compactSizeLen v` bytes on. Conversely the bytes a successful read moves past are the
encoding of the value it returns: a value below a marker's least value is refused, so each value
has one form, the shortest.

A count is a compact size that is at most the number of bytes left after it, and length-prefixed
bytes, prefix included, fit in what was left: no length is accepted that the data cannot hold.
-/

namespace BitcoinLight.Read

variable {α : Type}

def Advances (r : Read α) (len : α → Nat) : Prop :=
  ∀ ⦃c : Cursor⦄ ⦃v : α⦄ ⦃c' : Cursor⦄, r c = .ok v c' → c' = ⟨c.data, c.pos + len v⟩

theorem bytes_advances (n : Nat) : (bytes n).Advances fun _ => n := by
  intro c b c' h
  unfold bytes at h
  split at h
  · cases h; rfl
  · cases h

theorem natLE_advances (n : Nat) : (natLE n).Advances fun _ => n := by
  intro c w c' h
  rw [natLE_eq] at h
  obtain ⟨b, c1, hb, hw⟩ := bind_ok.mp h
  obtain ⟨rfl, rfl⟩ := pure_ok hw
  exact bytes_advances n hb

theorem u8_advances : u8.Advances fun _ => 1 := by
  intro c m c' h
  obtain ⟨w, c1, hw, hm⟩ := bind_ok.mp h
  obtain ⟨rfl, rfl⟩ := pure_ok hm
  exact natLE_advances 1 hw

theorem compactSize_advances : compactSize.Advances Word.compactSizeLen := by
  intro c v c' h
  obtain ⟨m, c1, hm, h⟩ := bind_ok.mp h
  rw [u8_advances hm] at h
  dsimp only at h
  -- one case per marker, and one for a byte that is its own value
  split at h
  · obtain ⟨x, c2, hx, h⟩ := bind_ok.mp h
    simp only [pure_bind] at h
    obtain ⟨rfl, rfl, hle⟩ := checked_ok h
    have hlt := (natLE_ok hx).1
    rw [natLE_advances 2 hx, Word.compactSizeLen, if_neg (by omega), if_pos (by omega)]
    simp only [Nat.add_assoc]
  · obtain ⟨x, c2, hx, h⟩ := bind_ok.mp h
    simp only [pure_bind] at h
    obtain ⟨rfl, rfl, hle⟩ := checked_ok h
    have hlt := (natLE_ok hx).1
    rw [natLE_advances 4 hx, Word.compactSizeLen, if_neg (by omega), if_neg (by omega),
      if_pos (by omega)]
    simp only [Nat.add_assoc]
  · obtain ⟨x, c2, hx, h⟩ := bind_ok.mp h
    simp only [pure_bind] at h
    obtain ⟨rfl, rfl, hle⟩ := checked_ok h
    rw [natLE_advances 8 hx, Word.compactSizeLen, if_neg (by omega), if_neg (by omega),
      if_neg (by omega)]
    simp only [Nat.add_assoc]
  · simp only [pure_bind] at h
    obtain ⟨rfl, rfl, -⟩ := checked_ok h
    rename_i h253 h254 h255 _
    rw [Word.compactSizeLen, if_pos (toNat_lt_of_ne_markers h253 h254 h255)]

theorem extract_of_rest {c : Cursor} {e t : List UInt8} (h : c.rest = e ++ t) :
    c.data.extract c.pos (c.pos + e.length) = ⟨e.toArray⟩ := by
  apply ByteArray.ext
  apply Array.ext'
  have : c.rest.take e.length = e := by rw [h]; simp
  simpa [Cursor.rest, List.extract_eq_take_drop] using this

theorem compactSize_consumed {c c' : Cursor} {v : Nat} (h : compactSize c = .ok v c') :
    c' = ⟨c.data, c.pos + Word.compactSizeLen v⟩ ∧
      c.data.extract c.pos c'.pos = Word.compactSize v := by
  have hadv := compactSize_advances h
  refine ⟨hadv, ?_⟩
  have hext := extract_of_rest (compactSize_canonical h)
  simp only [Array.length_toList, ByteArray.size_data, Word.compactSize_size] at hext
  rw [hadv, hext]

theorem compactSize_at {v : Nat} (hv : v < 2 ^ 64) (pre rest : ByteArray) :
    compactSize ⟨pre ++ Word.compactSize v ++ rest, pre.size⟩ =
      .ok v ⟨pre ++ Word.compactSize v ++ rest, pre.size + Word.compactSizeLen v⟩ := by
  obtain ⟨c', h, -⟩ := compactSize_decodes hv ⟨pre ++ Word.compactSize v ++ rest, pre.size⟩
    rest.data.toList (by simp [Cursor.rest])
  rw [h, compactSize_advances h]

theorem count_eq_ok_iff {c c' : Cursor} {n : Nat} :
    count c = .ok n c' ↔ compactSize c = .ok n c' ∧ n ≤ c'.remaining := by
  constructor
  · intro h
    obtain ⟨m, c1, hm, h⟩ := bind_ok.mp h
    obtain ⟨c2, c3, hg, h⟩ := bind_ok.mp h
    cases hg
    split at h
    · cases h
    · cases h
      exact ⟨hm, by omega⟩
  · rintro ⟨hm, hle⟩
    have hle' : ¬ n > c'.remaining := by omega
    rw [count, bind_of_ok hm]
    simp only [bind, EStateM.bind, get, getThe, MonadStateOf.get, EStateM.get, hle', ↓reduceIte]
    rfl

theorem varBytes_fits {c c' : Cursor} {b : ByteArray} (h : varBytes c = .ok b c') :
    Word.compactSizeLen b.size + b.size ≤ c.remaining := by
  obtain ⟨n, c1, hn, hb⟩ := bind_ok.mp h
  obtain ⟨hm, hle⟩ := count_eq_ok_iff.mp hn
  obtain rfl := (bytes_ok hb).1
  -- the prefix takes `compactSizeLen` of the bytes that were left, the count at most the rest
  have hrest := congrArg List.length (compactSize_canonical hm)
  simp only [List.length_append, Array.length_toList, ByteArray.size_data,
    Word.compactSize_size] at hrest
  rw [Cursor.remaining_eq] at hle ⊢
  omega

theorem compact_sizes_canonical_code (v : UInt64) (pre rest : ByteArray) :
    (Word.compactSize v.toNat).size = Word.compactSizeLen v.toNat ∧
    compactSize ⟨pre ++ Word.compactSize v.toNat ++ rest, pre.size⟩ =
      .ok v.toNat ⟨pre ++ Word.compactSize v.toNat ++ rest, pre.size + Word.compactSizeLen v.toNat⟩ ∧
    (∀ (c c' : Cursor) (w : Nat), compactSize c = .ok w c' →
      c' = ⟨c.data, c.pos + Word.compactSizeLen w⟩ ∧
        c.data.extract c.pos c'.pos = Word.compactSize w) ∧
    (∀ (c c' : Cursor) (n : Nat),
      count c = .ok n c' ↔ compactSize c = .ok n c' ∧ n ≤ c'.remaining) ∧
    (∀ (c c' : Cursor) (b : ByteArray), varBytes c = .ok b c' →
      Word.compactSizeLen b.size + b.size ≤ c.remaining) :=
  ⟨Word.compactSize_size v.toNat, compactSize_at v.toNat_lt pre rest,
    fun _ _ _ h => compactSize_consumed h, fun _ _ _ => count_eq_ok_iff,
    fun _ _ _ h => varBytes_fits h⟩

/-- `0xfd`, the least value of the three-byte form, is read from it; two bytes after their
length fit exactly in what is left. -/
theorem threeByteForm_code :
    compactSize ⟨⟨#[0xfd, 0xfd, 0x00]⟩, 0⟩ = .ok 0xfd ⟨⟨#[0xfd, 0xfd, 0x00]⟩, 3⟩ ∧
      ByteArray.extract ⟨#[0xfd, 0xfd, 0x00]⟩ 0 3 = Word.compactSize 0xfd ∧
      varBytes ⟨⟨#[0x02, 0xab, 0xcd]⟩, 0⟩ = .ok ⟨#[0xab, 0xcd]⟩ ⟨⟨#[0x02, 0xab, 0xcd]⟩, 3⟩ ∧
      Word.compactSizeLen 2 + 2 ≤ 3 := by
  have hread : compactSize ⟨⟨#[0xfd, 0xfd, 0x00]⟩, 0⟩ = .ok 0xfd ⟨⟨#[0xfd, 0xfd, 0x00]⟩, 3⟩ :=
    rfl
  have hvar :
      varBytes ⟨⟨#[0x02, 0xab, 0xcd]⟩, 0⟩ = .ok ⟨#[0xab, 0xcd]⟩ ⟨⟨#[0x02, 0xab, 0xcd]⟩, 3⟩ :=
    rfl
  obtain ⟨-, -, hcons, -, hfits⟩ :=
    compact_sizes_canonical_code 0 ByteArray.empty ByteArray.empty
  exact ⟨hread, (hcons _ _ _ hread).2, hvar, hfits _ _ _ hvar⟩

end BitcoinLight.Read
