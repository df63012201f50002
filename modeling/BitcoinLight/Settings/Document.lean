import BitcoinLight.Settings.Json

set_option autoImplicit false

/-!
# JSON documents

A document is a JSON value read with the settings reader's rules for numbers: an integer stays an
integer while it fits 64 bits, and any other number is the binary64 value that reader gives it.
An object keeps one value for each key, the last one given, with its keys in ascending order.

`Document.render` writes a document back as compact text: no blanks, keys in that order, only the
escapes a string needs, and binary64 numbers in the reader's layout. Settings read from the text
of a document therefore see the numbers the document holds, whatever text they were first given in.
-/

namespace BitcoinLight

/-- A JSON value whose numbers are as the settings reader reads them. -/
inductive Document where
  | null
  | bool (b : Bool)
  | number (n : TextRead.Number)
  | string (s : String)
  | array (items : List Document)
  | object (fields : List (String × Document))

namespace Document

/-- Gives key `k` the value `v` among fields in ascending key order, replacing an earlier value. -/
def setField (k : String) (v : Document) : List (String × Document) → List (String × Document)
  | [] => [(k, v)]
  | (k', v') :: rest =>
    if k < k' then (k, v) :: (k', v') :: rest
    else if k = k' then (k, v) :: rest
    else (k', v') :: setField k v rest

/-- The value of a key of an object. -/
def field? (d : Document) (k : String) : Option Document :=
  match d with
  | .object fields => (fields.find? (·.1 == k)).map (·.2)
  | _ => none

def items : Document → List Document
  | .array xs => xs
  | _ => []

open TextRead

def text (fuel : Nat) : TextRead String := do
  let bs ← stringBody fuel []
  pure ((String.fromUTF8? ⟨bs.toArray⟩).getD "")

mutual

/-- Reads one value. Every call reads at least one byte before it calls again, so twice the
length of the text, and one more, is fuel enough. -/
def readValue : Nat → TextRead Document
  | 0 => failHere "recursion limit exceeded"
  | fuel + 1 => do
    match ← blanks with
    | some 110 => do bump; ident [117, 108, 108]; pure .null
    | some 116 => do bump; ident [114, 117, 101]; pure (.bool true)
    | some 102 => do bump; ident [97, 108, 115, 101]; pure (.bool false)
    | some 45 => do bump; pure (.number (← integer false))
    | some 34 => do bump; pure (.string (← text fuel))
    | some 91 => do
      bump
      match ← blanks with
      | some 93 => do bump; pure (.array [])
      | _ => pure (.array (← readItems fuel []))
    | some 123 => do
      bump
      match ← blanks with
      | some 125 => do bump; pure (.object [])
      | _ => pure (.object (← readFields fuel []))
    | some b =>
      if isDigit b then do pure (.number (← integer true))
      else failNext "expected value"
    | none => failNext "EOF while parsing a value"

/-- Reads the items of an array from its first item on, `acc` holding those read, last first. -/
def readItems : Nat → List Document → TextRead (List Document)
  | 0, _ => failHere "recursion limit exceeded"
  | fuel + 1, acc => do
    let v ← readValue fuel
    match ← blanks with
    | some 44 => do bump; readItems fuel (v :: acc)
    | some 93 => do bump; pure (v :: acc).reverse
    | some _ => failNext "expected `,` or `]`"
    | none => failNext "EOF while parsing a list"

/-- Reads the members of an object from its first key on into `acc`. -/
def readFields : Nat → List (String × Document) → TextRead (List (String × Document))
  | 0, _ => failHere "recursion limit exceeded"
  | fuel + 1, acc => do
    let k ← match ← blanks with
      | some 34 => do bump; text fuel
      | some _ => failNext "key must be a string"
      | none => failNext "EOF while parsing an object"
    match ← blanks with
    | some 58 => bump
    | some _ => failNext "expected `:`"
    | none => failNext "EOF while parsing an object"
    let v ← readValue fuel
    let acc := setField k v acc
    match ← blanks with
    | some 44 => do bump; readFields fuel acc
    | some 125 => do bump; pure acc
    | some _ => failNext "expected `,` or `\x7d`"
    | none => failNext "EOF while parsing an object"

end

/-- Reads a document from JSON text, with nothing after it but whitespace. -/
def ofText? (json : String) : Except TextError Document :=
  let bytes := json.toUTF8.toList
  let whole : TextRead Document := do
    let d ← readValue (2 * bytes.length + 1)
    match ← blanks with
    | some _ => failNext "trailing characters"
    | none => pure d
  match whole ⟨bytes, bytes⟩ with
  | .ok d _ => .ok d
  | .error e _ => .error e

/-- A character as written inside a string: quote, backslash and control characters escaped,
with a short escape where there is one, every other character as it is. -/
def escapeChar (c : Char) : String :=
  match c with
  | '"' => "\\\""
  | '\\' => "\\\\"
  | '\n' => "\\n"
  | '\r' => "\\r"
  | '\t' => "\\t"
  | '\x08' => "\\b"
  | '\x0c' => "\\f"
  | _ =>
    if c.toNat < 0x20 then "\\u00" ++ String.ofList [Nat.digitChar (c.toNat / 16), Nat.digitChar (c.toNat % 16)]
    else c.toString

def quote (s : String) : String := "\"" ++ String.join (s.toList.map escapeChar) ++ "\""

/-- A number as written: an integer in decimal, a binary64 value in the reader's layout, and an
infinity, which has no JSON text, as null. -/
def renderNumber : TextRead.Number → String
  | .unsigned n => toString n
  | .negative i => toString i
  | .float f => if f.isInfinite then "null" else f.render numberLayout

/-- The compact text of a document. -/
def render : Document → String
  | .null => "null"
  | .bool b => if b then "true" else "false"
  | .number n => renderNumber n
  | .string s => quote s
  | .array xs => "[" ++ ",".intercalate (xs.map render) ++ "]"
  | .object fields => "\x7b" ++ ",".intercalate (fields.map fun kv => quote kv.1 ++ ":" ++ render kv.2) ++ "\x7d"
decreasing_by
  all_goals first
    | decreasing_tactic
    | rename_i h
      have hm := List.sizeOf_lt_of_mem h
      obtain ⟨k, v⟩ := kv
      simp only [Prod.mk.sizeOf_spec, Document.object.sizeOf_spec] at hm ⊢
      omega

end Document

end BitcoinLight
