import BitcoinLight.Settings.Config
import BitcoinLight.Number.Binary64

set_option autoImplicit false

/-!
# Reading settings from JSON text

Settings are read from JSON text as an object of optional fields, or as an array of field values
in field order; fields that are missing keep their default, unknown fields are skipped, and a
field given twice is an error. The reader works on the UTF-8 bytes of the text and reports the
first error with its line and column, the column counting the bytes of the line up to the
place. A syntax error names the byte it stopped at: one already read, or for some errors the
next one. An error about a value that was read, such as a wrong type or a number out of range,
is placed after that value. Numbers with a fraction or an exponent, and integers beyond 64 bits,
are read as binary64 values, the way the rounded product or quotient of the significand and a
power of ten gives them.
-/

namespace BitcoinLight

/-- A reading error: its message and, once known, its line and column. -/
structure TextError where
  message : String
  place : Option (Nat × Nat) := none
  deriving DecidableEq

/-- The message with its place, as reported. -/
def TextError.render (e : TextError) : String :=
  match e.place with
  | some (l, c) => s!"{e.message} at line {l} column {c}"
  | none => e.message

/-- The whole text and the part not read yet. -/
structure Scan where
  text : List UInt8
  rest : List UInt8

abbrev TextRead := EStateM TextError Scan

namespace TextRead

def offset (sc : Scan) : Nat := sc.text.length - sc.rest.length

/-- Line and column of byte offset `i`: the line counts from 1, the column is the number of
bytes of the line before `i`. -/
def placeAt (text : List UInt8) (i : Nat) : Nat × Nat :=
  let pre := text.take i
  (1 + pre.count 10, (pre.reverse.takeWhile (· != 10)).length)

def failHere {α : Type} (msg : String) : TextRead α := fun sc =>
  .error ⟨msg, some (placeAt sc.text (offset sc))⟩ sc

def failNext {α : Type} (msg : String) : TextRead α := fun sc =>
  .error ⟨msg, some (placeAt sc.text (min sc.text.length (offset sc + 1)))⟩ sc

def peek : TextRead (Option UInt8) := fun sc => .ok sc.rest.head? sc

def bump : TextRead Unit := fun sc => .ok () { sc with rest := sc.rest.tail }

/-- Reads the next byte. -/
def next : TextRead (Option UInt8) := fun sc =>
  match sc.rest with
  | [] => .ok none sc
  | b :: r => .ok (some b) { sc with rest := r }

def isBlank (b : UInt8) : Bool := b == 32 || b == 10 || b == 9 || b == 13

def isDigit (b : UInt8) : Bool := 48 ≤ b && b ≤ 57

def blanks : TextRead (Option UInt8) := fun sc =>
  let r := sc.rest.dropWhile isBlank
  .ok r.head? { sc with rest := r }

def digits : TextRead (List UInt8) := fun sc =>
  .ok (sc.rest.takeWhile isDigit) { sc with rest := sc.rest.dropWhile isDigit }

/-- Places an error that has no place yet after what has been read when it arrives. -/
def placed {α : Type} (x : TextRead α) : TextRead α := fun sc =>
  match x sc with
  | .ok a s => .ok a s
  | .error e s => .error (if e.place.isSome then e else { e with place := some (placeAt s.text (offset s)) }) s

/-- Runs `x`; on failure runs `after` for its reading only, then places the error. -/
def placedAfter {α : Type} (x : TextRead α) (after : TextRead Unit) : TextRead α := fun sc =>
  match x sc with
  | .ok a s => .ok a s
  | .error e s =>
    let s := match after s with
      | .ok _ s => s
      | .error _ s => s
    .error (if e.place.isSome then e else { e with place := some (placeAt s.text (offset s)) }) s

def unread (bs : List UInt8) : TextRead Unit := fun sc => .ok () { sc with rest := bs ++ sc.rest }

def failUnplaced {α : Type} (msg : String) : TextRead α := throw ⟨msg, none⟩

/-- Reads the rest of a literal such as `null`. -/
def ident : List UInt8 → TextRead Unit
  | [] => pure ()
  | c :: cs => do
    match ← next with
    | none => failHere "EOF while parsing a value"
    | some b => if b = c then ident cs else failHere "expected ident"

/-! ## Numbers -/

/-- A number as read: a natural below 2^64, a negative integer from -2^63, or a binary64 value. -/
inductive Number where
  | unsigned (n : Nat)
  | negative (i : Int)
  | float (f : Binary64)

/-- The layout of binary64 numbers, in text and in messages: positionally from 10^-5 up to below
10^16, a whole number with ".0", and otherwise with an exponent that carries its sign. -/
def numberLayout : Binary64.DecimalLayout := ⟨-5, 15, true, true⟩

def u64Max : Nat := 2 ^ 64 - 1

/-- Accumulates decimal digits while the value stays at most `limit`; gives the value and how
many digits it took. -/
def accumulate (limit : Nat) (start : Nat) : List UInt8 → Nat × Nat
  | [] => (start, 0)
  | d :: ds =>
    let v := start * 10 + (d - 48).toNat
    if v > limit then (start, 0)
    else
      let (w, n) := accumulate limit v ds
      (w, n + 1)

/-- The binary64 value of `significand · 10^exponent`, taken as the significand rounded, then
multiplied or divided by 10^|exponent| rounded; exponents beyond 308 first divide by 10^308 until
one is in range. A finite result that overflows is an error. -/
def fromParts (positive : Bool) (significand : Nat) (exponent : Int) : TextRead Binary64 := do
  let rec go : Nat → Binary64 → Int → TextRead Binary64
    | 0, f, _ => pure f
    | fuel + 1, f, e =>
      if e.natAbs ≤ 308 then
        if e ≥ 0 then
          let g := f.mul (Binary64.pow10 e.toNat)
          if g.isInfinite then failHere "number out of range" else pure g
        else pure (f.div (Binary64.pow10 (-e).toNat))
      else if f.isZero then pure f
      else if e ≥ 0 then failHere "number out of range"
      else go fuel (f.div (Binary64.pow10 308)) (e + 308)
  let f ← go (exponent.natAbs / 308 + 2) (Binary64.ofNat significand) exponent
  pure (if positive then f else f.neg)

/-- Reads an exponent after `e` or `E` and makes the value. -/
def exponentPart (positive : Bool) (significand : Nat) (start : Int) : TextRead Binary64 := do
  bump
  let positiveExp ← match ← peek with
    | some 43 => do bump; pure true
    | some 45 => do bump; pure false
    | _ => pure true
  match ← next with
  | none => failHere "EOF while parsing a value"
  | some c =>
    if !isDigit c then failHere "invalid number"
    else
      let ds ← digits
      let limit : Nat := 2 ^ 31 - 1
      let (exp, taken) := accumulate limit (c - 48).toNat ds
      if taken < ds.length then
        -- the digit that overflows is read before the check
        if significand ≠ 0 ∧ positiveExp then
          unread (ds.drop (taken + 1))
          failHere "number out of range"
        else pure (.finite (!positive) 0 0)
      else
        let e : Int := if positiveExp then start + exp else start - exp
        let e := max (min e (2 ^ 31 - 1)) (-(2 ^ 31))
        fromParts positive significand e

/-- Reads a fraction after `.` and what follows it. -/
def fractionPart (positive : Bool) (significand : Nat) (start : Int) : TextRead Binary64 := do
  bump
  let ds ← digits
  let (sig, taken) := accumulate u64Max significand ds
  if taken = ds.length && ds.isEmpty then
    match ← peek with
    | some _ => failNext "invalid number"
    | none => failNext "EOF while parsing a value"
  else
    let e : Int := if taken < ds.length then start - taken else start - ds.length
    match ← peek with
    | some 101 | some 69 => exponentPart positive sig e
    | _ => fromParts positive sig e

/-- Reads what may follow the integer digits: a fraction, an exponent, or nothing. -/
def afterInteger (positive : Bool) (significand : Nat) (dropped : Nat) : TextRead Number := do
  match ← peek with
  | some 46 => .float <$> fractionPart positive significand dropped
  | some 101 | some 69 => .float <$> exponentPart positive significand dropped
  | _ =>
    if dropped > 0 then .float <$> fromParts positive significand dropped
    else if positive then pure (.unsigned significand)
    else if significand = 0 then pure (.float (.finite true 0 0))
    else if significand > 2 ^ 63 then pure (.float (Binary64.ofNat significand).neg)
    else pure (.negative (-(significand : Int)))

/-- Reads an integer, its sign already read, and what follows it. -/
def integer (positive : Bool) : TextRead Number := do
  match ← next with
  | none => failHere "EOF while parsing a value"
  | some 48 =>
    match ← peek with
    | some d => if isDigit d then failNext "invalid number" else afterInteger positive 0 0
    | none => afterInteger positive 0 0
  | some c =>
    if !isDigit c then failHere "invalid number"
    else
      let ds ← digits
      let (sig, taken) := accumulate u64Max (c - 48).toNat ds
      afterInteger positive sig (ds.length - taken)

/-! ## Strings -/

/-- The value of four hex digits. -/
def hex4 (bs : List UInt8) : Option Nat :=
  bs.foldlM (fun acc b =>
    if 48 ≤ b ∧ b ≤ 57 then some (acc * 16 + (b - 48).toNat)
    else if 97 ≤ b ∧ b ≤ 102 then some (acc * 16 + (b - 87).toNat)
    else if 65 ≤ b ∧ b ≤ 70 then some (acc * 16 + (b - 55).toNat)
    else none) 0

/-- Reads the four hex digits of an escape. -/
def hexEscape : TextRead Nat := fun sc =>
  match sc.rest with
  | a :: b :: c :: d :: r =>
    let sc' := { sc with rest := r }
    match hex4 [a, b, c, d] with
    | some v => .ok v sc'
    | none => (failHere "invalid escape" : TextRead Nat) sc'
  | _ => (failHere "EOF while parsing a string" : TextRead Nat) { sc with rest := [] }

def utf8 (c : Nat) : List UInt8 := (String.singleton (Char.ofNat c)).toUTF8.toList

/-- Reads a `\u` escape, pairing surrogates. -/
def unicodeEscape : TextRead (List UInt8) := do
  let n ← hexEscape
  if 0xDC00 ≤ n ∧ n ≤ 0xDFFF then failHere "lone leading surrogate in hex escape"
  else if n < 0xD800 ∨ n > 0xDBFF then pure (utf8 n)
  else
    match ← peek with
    | none => failHere "EOF while parsing a string"
    | some b =>
      bump
      if b ≠ 92 then failHere "unexpected end of hex escape"
      else
        match ← peek with
        | none => failHere "EOF while parsing a string"
        | some u =>
          bump
          if u ≠ 117 then failHere "unexpected end of hex escape"
          else
            let n2 ← hexEscape
            if n2 < 0xDC00 ∨ n2 > 0xDFFF then failHere "lone leading surrogate in hex escape"
            else pure (utf8 ((((n - 0xD800) <<< 10) ||| (n2 - 0xDC00)) + 0x10000))

/-- Reads an escape after the backslash. -/
def escape : TextRead (List UInt8) := do
  match ← next with
  | none => failHere "EOF while parsing a string"
  | some 34 => pure [34]
  | some 92 => pure [92]
  | some 47 => pure [47]
  | some 98 => pure [8]
  | some 102 => pure [12]
  | some 110 => pure [10]
  | some 114 => pure [13]
  | some 116 => pure [9]
  | some 117 => unicodeEscape
  | some _ => failHere "invalid escape"

def stopsString (b : UInt8) : Bool := b == 34 || b == 92 || b < 32

/-- Reads the bytes of a string after its opening quote, for at most `fuel` runs. -/
def stringBody : Nat → List UInt8 → TextRead (List UInt8)
  | 0, acc => pure acc
  | fuel + 1, acc => do
    let run ← fun sc => .ok (sc.rest.takeWhile (!stopsString ·)) { sc with rest := sc.rest.dropWhile (!stopsString ·) }
    match ← peek with
    | none => failHere "EOF while parsing a string"
    | some 34 => do bump; pure (acc ++ run)
    | some 92 => do
      bump
      let e ← escape
      stringBody fuel (acc ++ run ++ e)
    | some _ => do
      bump
      failHere "control character (\\u0000-\\u001F) found while parsing a string"

/-- Reads a string after its opening quote. -/
def string : TextRead String := do
  let fuel := (← get).rest.length + 1
  let bs ← stringBody fuel []
  pure ((String.fromUTF8? ⟨bs.toArray⟩).getD "")

/-- Skips a string after its opening quote, checking its escapes. -/
def skipString : Nat → TextRead Unit
  | 0 => pure ()
  | fuel + 1 => do
    let _ ← fun sc => .ok () { sc with rest := sc.rest.dropWhile (!stopsString ·) }
    match ← peek with
    | none => failHere "EOF while parsing a string"
    | some 34 => bump
    | some 92 => do
      bump
      match ← next with
      | none => failHere "EOF while parsing a string"
      | some c =>
        if c = 34 ∨ c = 92 ∨ c = 47 ∨ c = 98 ∨ c = 102 ∨ c = 110 ∨ c = 114 ∨ c = 116 then skipString fuel
        else if c = 117 then do let _ ← hexEscape; skipString fuel
        else failHere "invalid escape"
    | some _ => failHere "control character (\\u0000-\\u001F) found while parsing a string"

/-! ## Skipping values -/

/-- Skips an integer, its sign already read, with any fraction and exponent. -/
def skipNumber : TextRead Unit := do
  match ← next with
  | some 48 =>
    if let some d ← peek then
      if isDigit d then failNext "invalid number"
  | some c => if isDigit c then do let _ ← digits else failHere "invalid number"
  | none => failHere "invalid number"
  if (← peek) == some 46 then
    bump
    let ds ← digits
    if ds.isEmpty then failNext "invalid number"
  if (← peek) == some 101 || (← peek) == some 69 then
    bump
    if (← peek) == some 43 || (← peek) == some 45 then bump
    match ← next with
    | some c => if isDigit c then do let _ ← digits else failHere "invalid number"
    | none => failHere "invalid number"

/-- Reads closing brackets after a value (when `acceptComma`) or after an opening bracket,
inside `frame` with the brackets `outer` around it, innermost first. Gives none when the
outermost bracket closes, or the bracket the next value goes in and those around it; a comma
that separates values is read. -/
def closeFrames : Nat → UInt8 → List UInt8 → Bool → TextRead (Option (UInt8 × List UInt8))
  | 0, _, _, _ => pure none
  | fuel + 1, frame, outer, acceptComma => do
    let mismatch : TextRead (Option (UInt8 × List UInt8)) :=
      if acceptComma then
        if frame = 91 then failNext "expected `,` or `]`" else failNext "expected `,` or `\x7d`"
      else pure (some (frame, outer))
    let close : TextRead (Option (UInt8 × List UInt8)) := do
      bump
      match outer with
      | [] => pure none
      | f :: rest => closeFrames fuel f rest true
    match ← blanks with
    | some 44 => if acceptComma then do bump; pure (some (frame, outer)) else mismatch
    | some 93 => if frame = 91 then close else mismatch
    | some 125 => if frame = 123 then close else mismatch
    | some _ => mismatch
    | none => if frame = 91 then failNext "EOF while parsing a list" else failNext "EOF while parsing an object"

/-- Reads a key and its colon inside an object being skipped. -/
def skipKey : TextRead Unit := do
  match ← blanks with
  | some 34 => do bump; skipString ((← get).rest.length + 1)
  | some _ => failNext "key must be a string"
  | none => failNext "EOF while parsing an object"
  match ← blanks with
  | some 58 => bump
  | some _ => failNext "expected `:`"
  | none => failNext "EOF while parsing an object"

/-- Skips values from the current place; `enclosing` is the bracket the value is in and
`outer` the brackets around that, innermost first. Each round reads at least one byte, so the
length of the text bounds the rounds. -/
def skipFrom : Nat → Option UInt8 → List UInt8 → TextRead Unit
  | 0, _, _ => pure ()
  | fuel + 1, enclosing, outer => do
    let opened ← match ← blanks with
      | some 110 => do bump; ident [117, 108, 108]; pure none
      | some 116 => do bump; ident [114, 117, 101]; pure none
      | some 102 => do bump; ident [97, 108, 115, 101]; pure none
      | some 45 => do bump; skipNumber; pure none
      | some 34 => do bump; skipString ((← get).rest.length + 1); pure none
      | some b =>
        if isDigit b then do skipNumber; pure none
        else if b = 91 ∨ b = 123 then do bump; pure (some b)
        else failNext "expected value"
      | none => failNext "EOF while parsing a value"
    let start : Option (Bool × UInt8 × List UInt8) := match opened with
      | some b => some (false, b, enclosing.toList ++ outer)
      | none => match enclosing with
        | some f => some (true, f, outer)
        | none => match outer with
          | f :: rest => some (true, f, rest)
          | [] => none
    match start with
    | none => pure ()
    | some (acceptComma, frame, outer) =>
      match ← closeFrames (fuel + 1) frame outer acceptComma with
      | none => pure ()
      | some (frame, outer) =>
        if frame = 123 then skipKey
        skipFrom fuel (some frame) outer

def skipValue : TextRead Unit := do
  let fuel := (← get).rest.length + 1
  skipFrom fuel none []

end TextRead

end BitcoinLight
