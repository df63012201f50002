import Mathlib
import BitcoinLight.Witness.Spend

set_option autoImplicit false

/-!
# Reading a witness stack loses nothing

`WitnessSpend.ofStack` gives every witness stack one of five readings, and `toStack` writes a
reading back as a stack. Writing back a reading gives the stack it was read from, so the reading is
injective and reading a written reading gives it again.

Which reading a stack gets follows a fixed order of priority, stated here on the stack alone
(`expectedShape`): the empty stack; a taproot script path, when below the annex (the last element,
if it starts with `0x50` and the stack has two or more) at least two elements remain and the top
one parses as a control block of tapscript; a version-0 key spend, when one or two elements carry a
public key on top; a taproot key path, when a signature of 64 or 65 bytes stands alone or under an
annex; and otherwise a version-0 script spend. The curve checks behind public keys and control
blocks enter only through `isPublicKey` and `ControlBlock.parse`.
-/

namespace BitcoinLight.WitnessSpend

/-! ## The order of priority, on the stack alone -/

/-- The five readings, without their parts. -/
inductive Shape where
  | empty
  | p2wpkh
  | p2wsh
  | keyPath
  | scriptPath
  deriving DecidableEq

def shape : WitnessSpend → Shape
  | .empty => .empty
  | .p2wpkh .. => .p2wpkh
  | .p2wsh .. => .p2wsh
  | .keyPath .. => .keyPath
  | .scriptPath .. => .scriptPath

/-- The stack below its annex: without the last element when there are two or more and the last
starts with the annex tag. -/
def belowAnnex (s : List ByteArray) : List ByteArray :=
  if 2 ≤ s.length ∧ s.getLast?.any Taproot.isAnnex then s.dropLast else s

def isTapscriptBlock (cb : ByteArray) : Bool :=
  match Taproot.ControlBlock.parse cb with
  | .ok p => p.leafVersion == Taproot.tapscriptLeafVersion
  | .error _ => false

def scriptPathShaped (s : List ByteArray) : Bool :=
  2 ≤ (belowAnnex s).length && (belowAnnex s).getLast?.any isTapscriptBlock

def keyOnTop (s : List ByteArray) : Bool :=
  (s.length == 1 || s.length == 2) && s.getLast?.any isPublicKey

def keyPathShaped : List ByteArray → Bool
  | [sig] => isSchnorrSize sig
  | [sig, a] => isSchnorrSize sig && Taproot.isAnnex a
  | _ => false

def expectedShape (s : List ByteArray) : Shape :=
  if s.isEmpty then .empty
  else if scriptPathShaped s then .scriptPath
  else if keyOnTop s then .p2wpkh
  else if keyPathShaped s then .keyPath
  else .p2wsh

/-! ## The stack below the annex -/

theorem splitLast?_eq_some_iff {l r : List ByteArray} {x : ByteArray} :
    splitLast? l = some (r, x) ↔ l = r ++ [x] := by
  unfold splitLast?
  rcases List.eq_nil_or_concat' l with rfl | ⟨L, b, rfl⟩
  · simp
  · simp [eq_comm]

theorem splitLast?_concat (r : List ByteArray) (x : ByteArray) :
    splitLast? (r ++ [x]) = some (r, x) :=
  splitLast?_eq_some_iff.mpr rfl

theorem belowAnnex_concat (L : List ByteArray) (l : ByteArray) :
    belowAnnex (L ++ [l]) = if L ≠ [] ∧ Taproot.isAnnex l then L else L ++ [l] := by
  simp [belowAnnex, Nat.one_le_iff_ne_zero]

theorem annexOf?_concat (L : List ByteArray) (l : ByteArray) :
    Taproot.annexOf? (L ++ [l]) = if L ≠ [] ∧ Taproot.isAnnex l then some l else none := by
  simp [Taproot.annexOf?, Nat.one_le_iff_ne_zero]

theorem belowAnnex_append_annex (s : List ByteArray) :
    belowAnnex s ++ (Taproot.annexOf? s).toList = s := by
  rcases List.eq_nil_or_concat' s with rfl | ⟨L, l, rfl⟩
  · simp [belowAnnex, Taproot.annexOf?]
  · rw [belowAnnex_concat, annexOf?_concat]
    split_ifs <;> simp

theorem two_and_top_iff (l : List ByteArray) (f : ByteArray → Bool) :
    (2 ≤ l.length ∧ l.getLast?.any f = true) ↔
      ∃ args script cb, l = args ++ [script, cb] ∧ f cb = true := by
  constructor
  · rintro ⟨hlen, htop⟩
    obtain ⟨rest, cb, rfl⟩ : ∃ rest cb, l = rest ++ [cb] :=
      (List.eq_nil_or_concat' l).resolve_left (by rintro rfl; simp at hlen)
    obtain ⟨args, script, rfl⟩ : ∃ args script, rest = args ++ [script] :=
      (List.eq_nil_or_concat' rest).resolve_left (by rintro rfl; simp at hlen)
    exact ⟨args, script, cb, by simp, by simpa using htop⟩
  · rintro ⟨args, script, cb, rfl, hcb⟩
    simp [hcb]

/-! ## The script-path reading -/

theorem scriptPath?_eq_some_iff {s : List ByteArray} {w : WitnessSpend} :
    scriptPath? s = some w ↔ ∃ args script cb, belowAnnex s = args ++ [script, cb] ∧
      isTapscriptBlock cb = true ∧ w = .scriptPath args script cb (Taproot.annexOf? s) := by
  rcases List.eq_nil_or_concat' s with rfl | ⟨L, l, rfl⟩
  · simp [scriptPath?, belowAnnex]
  rw [belowAnnex_concat, annexOf?_concat]
  by_cases hL : L = []
  · -- one element: too short for a script and a control block
    subst hL
    have hshort : ∀ args (script cb : ByteArray), [l] ≠ args ++ [script, cb] := by
      intro args script cb h
      have := congrArg List.length h
      simp at this
    simp [scriptPath?, hshort]
  have hlen : ¬(L ++ [l]).length < 2 := by
    have := List.length_pos_iff.mpr hL
    simp only [List.length_append, List.length_singleton]
    omega
  simp only [scriptPath?, hlen, if_false, splitLast?_concat, hL, ne_eq, not_false_eq_true,
    true_and]
  -- the annex, if any, and the stack below it, as the reading splits them
  generalize hp : (if Taproot.isAnnex l = true then (some l, L) else (none, L ++ [l])) = p
  have h1 : (if Taproot.isAnnex l = true then some l else none) = p.1 := by
    rw [← hp]; split <;> rfl
  have h2 : (if Taproot.isAnnex l = true then L else L ++ [l]) = p.2 := by
    rw [← hp]; split <;> rfl
  rw [h1, h2]
  simp only [Option.bind_eq_bind, Option.bind_eq_some_iff, Prod.exists, splitLast?_eq_some_iff]
  constructor
  · rintro ⟨rest, cb, hR, args, script, rfl, hm⟩
    refine ⟨args, script, cb, by simp [hR], ?_⟩
    cases hparse : Taproot.ControlBlock.parse cb with
    | error e => simp [hparse] at hm
    | ok parsed =>
      simp only [hparse] at hm
      split at hm
      · cases hm
        simp_all [isTapscriptBlock]
      · cases hm
  · rintro ⟨args, script, cb, hR, htap, rfl⟩
    refine ⟨args ++ [script], cb, by simp [hR], args, script, rfl, ?_⟩
    cases hparse : Taproot.ControlBlock.parse cb with
    | error e => simp [isTapscriptBlock, hparse] at htap
    | ok parsed => simp_all [isTapscriptBlock]

theorem scriptPath?_isSome (s : List ByteArray) :
    (scriptPath? s).isSome = scriptPathShaped s := by
  rw [Bool.eq_iff_iff, Option.isSome_iff_exists, scriptPathShaped, Bool.and_eq_true,
    decide_eq_true_iff, two_and_top_iff]
  simp only [scriptPath?_eq_some_iff]
  constructor
  · rintro ⟨w, args, script, cb, hb, hcb, -⟩
    exact ⟨args, script, cb, hb, hcb⟩
  · rintro ⟨args, script, cb, hb, hcb⟩
    exact ⟨_, args, script, cb, hb, hcb, rfl⟩

theorem scriptPath?_spec {s : List ByteArray} {w : WitnessSpend} (h : scriptPath? s = some w) :
    w.shape = .scriptPath ∧ toStack w = s := by
  obtain ⟨args, script, cb, hb, -, rfl⟩ := scriptPath?_eq_some_iff.mp h
  refine ⟨rfl, ?_⟩
  conv_rhs => rw [← belowAnnex_append_annex s, hb]
  simp [toStack]

/-! ## Reading and writing back -/

theorem dropLast_append_getLast?_getD {s : List ByteArray} (h : s ≠ []) (d : ByteArray) :
    s.dropLast ++ [s.getLast?.getD d] = s := by
  rw [List.getLast?_eq_some_getLast h, Option.getD_some, List.dropLast_append_getLast]

theorem toStack_ofStack (s : List ByteArray) : toStack (ofStack s) = s := by
  unfold ofStack
  split
  · rfl
  · rename_i hne
    cases hsp : scriptPath? s with
    | some w => exact (scriptPath?_spec hsp).2
    | none =>
      -- the key readings write back their one or two elements; the rest is a script spend
      simp only
      split
      · split_ifs <;> rfl
      · split_ifs <;> rfl
      · exact dropLast_append_getLast?_getD (fun h => hne h) _

theorem shape_ofStack (s : List ByteArray) : (ofStack s).shape = expectedShape s := by
  unfold ofStack expectedShape
  split
  · rfl
  · rename_i hne
    have hne' : s.isEmpty = false := List.isEmpty_eq_false_iff.mpr fun h => hne h
    cases hsp : scriptPath? s with
    | some w =>
      have hshaped : scriptPathShaped s = true := by rw [← scriptPath?_isSome, hsp]; rfl
      simp [hne', hshaped, (scriptPath?_spec hsp).1]
    | none =>
      have hshaped : scriptPathShaped s = false := by rw [← scriptPath?_isSome, hsp]; rfl
      simp only [hne', hshaped, Bool.false_eq_true, if_false]
      split
      · split_ifs <;> simp_all [shape, keyOnTop, keyPathShaped]
      · split_ifs <;> simp_all [shape, keyOnTop, keyPathShaped]
      · rename_i hone htwo
        -- three elements or more: neither key reading applies
        obtain ⟨a, b, c, rest, rfl⟩ : ∃ a b c rest, s = a :: b :: c :: rest := by
          rcases s with _ | ⟨a, _ | ⟨b, _ | ⟨c, rest⟩⟩⟩
          · exact absurd rfl hne
          · exact absurd rfl (hone a)
          · exact absurd rfl (htwo a b)
          · exact ⟨a, b, c, rest, rfl⟩
        simp [keyOnTop, keyPathShaped, shape]

/-- Witness reading: writing back the reading of any stack gives the stack, so reading is
injective and reading a written reading gives it again; and the reading has the shape the order
of priority (empty, taproot script path, version-0 key, taproot key path, version-0 script)
gives the stack. -/
theorem witness_reading_lossless_in_priority_order :
    (∀ s, toStack (ofStack s) = s) ∧ Function.Injective ofStack ∧
      (∀ s, ofStack (toStack (ofStack s)) = ofStack s) ∧
      ∀ s, (ofStack s).shape = expectedShape s := by
  refine ⟨toStack_ofStack, ?_, fun s => by rw [toStack_ofStack], shape_ofStack⟩
  intro s s' h
  rw [← toStack_ofStack s, h, toStack_ofStack]

end BitcoinLight.WitnessSpend
