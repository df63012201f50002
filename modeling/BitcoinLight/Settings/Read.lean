import BitcoinLight.Settings.Json
import BitcoinLight.Text.Quoted

set_option autoImplicit false

/-!
# Settings from JSON text

`Config.ofJson` reads settings from JSON text and checks them. The value is an object whose keys
name fields, or an array of field values in the order network, chain-work batch size,
filter-header batch size, filter batch size, cache depth, log level, log JSON flag. The network
is a lowercase name in a string, or an object of one such key with value null. Batch sizes are
32-bit counts and the cache depth a 64-bit count. A value of the wrong kind is reported with what
it was and what was expected.
-/

namespace BitcoinLight

namespace TextRead

/-- What a value of the wrong kind was. -/
inductive Unexpected where
  | unit | bool (b : Bool) | unsigned (n : Nat) | signed (i : Int) | float (f : Binary64)
  | str (s : String) | seq | map

/-- What a wrong value was, in words. -/
def Unexpected.describe : Unexpected → String
  | .unit => "null"
  | .bool b => s!"boolean `{b}`"
  | .unsigned n => s!"integer `{n}`"
  | .signed i => s!"integer `{i}`"
  | .float f => "floating point `" ++ f.render numberLayout ++ "`"
  | .str s => "string " ++ Text.quoted s
  | .seq => "sequence"
  | .map => "map"

def invalidType {α : Type} (u : Unexpected) (expected : String) : TextRead α :=
  failUnplaced s!"invalid type: {u.describe}, expected {expected}"

def invalidValue {α : Type} (u : Unexpected) (expected : String) : TextRead α :=
  failUnplaced s!"invalid value: {u.describe}, expected {expected}"

/-- What a number was. -/
def Number.unexpected : Number → Unexpected
  | .unsigned n => .unsigned n
  | .negative i => .signed i
  | .float f => .float f

/-- Reads the value that is of the wrong kind for `expected`, and fails with what it was,
placed after it. -/
def wrongKind {α : Type} (expected : String) : TextRead α := placed do
  let u ← match ← peek with
    | some 110 => do bump; ident [117, 108, 108]; pure Unexpected.unit
    | some 116 => do bump; ident [114, 117, 101]; pure (.bool true)
    | some 102 => do bump; ident [97, 108, 115, 101]; pure (.bool false)
    | some 45 => do bump; pure (← integer false).unexpected
    | some 34 => do bump; pure (.str (← string))
    | some 91 => pure .seq
    | some 123 => pure .map
    | some b => if isDigit b then do pure (← integer true).unexpected else failNext "expected value"
    | none => failNext "expected value"
  invalidType u expected

/-- Reads a count of at most `limit`, for a field of type `name`. -/
def count (limit : Nat) (name : String) : TextRead Nat := placed do
  let n ← match ← blanks with
    | none => failNext "EOF while parsing a value"
    | some 45 => do bump; integer false
    | some b => if isDigit b then integer true else wrongKind name
  match n with
  | .unsigned v => if v ≤ limit then pure v else invalidValue (.unsigned v) name
  | .negative i => invalidValue (.signed i) name
  | .float f => invalidType (.float f) name

/-- Reads `true` or `false`. -/
def boolean : TextRead Bool := placed do
  match ← blanks with
  | none => failNext "EOF while parsing a value"
  | some 116 => do bump; ident [114, 117, 101]; pure true
  | some 102 => do bump; ident [97, 108, 115, 101]; pure false
  | some _ => wrongKind "a boolean"

/-- Reads a string. -/
def text : TextRead String := placed do
  match ← blanks with
  | none => failNext "EOF while parsing a value"
  | some 34 => do bump; string
  | some _ => wrongKind "a string"

/-- Reads `null`. -/
def unit : TextRead Unit := placed do
  match ← blanks with
  | none => failNext "EOF while parsing a value"
  | some 110 => do bump; ident [117, 108, 108]
  | some _ => wrongKind "unit"

/-- The network of a lowercase name. -/
def networkOfName : String → Option Network
  | "mainnet" => some .mainnet
  | "testnet" => some .testnet
  | "signet" => some .signet
  | "regtest" => some .regtest
  | _ => none

/-- The network of a name read as a variant; an unknown name is an error placed later. -/
def variant (name : String) : TextRead Network :=
  match networkOfName name with
  | some n => pure n
  | none => failUnplaced s!"unknown variant `{name}`, expected one of `mainnet`, `testnet`, `signet`, `regtest`"

/-- Reads the name of a network in a string, placing an error after it. -/
def networkName : TextRead Network := placed do
  match ← blanks with
  | none => failNext "EOF while parsing a value"
  | some 34 => do bump; variant (← string)
  | some _ => wrongKind "variant identifier"

/-- Reads a network: its name in a string, or an object whose one key is its name and whose
value is null. The key is read as object keys are, so it must be a string; an empty object
lacks the value, and an unknown name is placed right after the key. -/
def network : TextRead Network := do
  match ← blanks with
  | some 123 => do
    bump
    let n ← match ← blanks with
      | some 34 => placed do bump; variant (← string)
      | some 125 => failNext "expected value"
      | some _ => failNext "key must be a string"
      | none => failNext "EOF while parsing an object"
    match ← blanks with
    | some 58 => bump
    | some _ => failNext "expected `:`"
    | none => failNext "EOF while parsing an object"
    unit
    match ← blanks with
    | some 125 => do bump; pure n
    | some _ => failHere "expected value"
    | none => failHere "EOF while parsing an object"
  | some 34 => networkName
  | some _ => failNext "expected value"
  | none => failNext "EOF while parsing a value"

def u32Max : Nat := 2 ^ 32 - 1

/-- Reads the value of a field into the settings; gives none for an unknown field, whose value
is skipped. -/
def field (c : Config) : String → TextRead (Option Config)
  | "network" => do pure (some { c with network := ← network })
  | "chain_work_batch_size" => do pure (some { c with chainWorkBatchSize := ← count u32Max "u32" })
  | "filter_header_batch_size" => do pure (some { c with filterHeaderBatchSize := ← count u32Max "u32" })
  | "filter_batch_size" => do pure (some { c with filterBatchSize := ← count u32Max "u32" })
  | "chain_cache_depth" => do pure (some { c with cacheDepth := ← count u64Max "usize" })
  | "log_level" => do pure (some { c with logLevel := ← text })
  | "log_json" => do pure (some { c with logJson := ← boolean })
  | _ => do skipValue; pure none

def fieldNames : List String :=
  ["network", "chain_work_batch_size", "filter_header_batch_size", "filter_batch_size",
    "chain_cache_depth", "log_level", "log_json"]

/-- Reads the next key of an object, or none at its end; `first` is whether none was read. -/
def key (first : Bool) : TextRead (Option String) := do
  let b ← match ← blanks with
    | some 125 => return none
    | some 44 => if first then pure (some 44) else do bump; blanks
    | some b => if first then pure (some b) else failNext "expected `,` or `\x7d`"
    | none => failNext "EOF while parsing an object"
  match b with
  | some 34 => do bump; pure (some (← string))
  | some 125 => failNext "trailing comma"
  | some _ => failNext "key must be a string"
  | none => failNext "EOF while parsing a value"

/-- Reads the fields of an object, for at most `fuel` keys; `seen` are the fields given. -/
def fields : Nat → Bool → List String → Config → TextRead Config
  | 0, _, _, c => pure c
  | fuel + 1, first, seen, c => do
    match ← key first with
    | none => pure c
    | some k =>
      if fieldNames.contains k ∧ seen.contains k then failUnplaced s!"duplicate field `{k}`"
      else
        match ← blanks with
        | some 58 => bump
        | some _ => failNext "expected `:`"
        | none => failNext "EOF while parsing an object"
        match ← field c k with
        | some c => fields fuel false (k :: seen) c
        | none => fields fuel false seen c

/-- Reads the next element of an array, or none at its end; `first` is whether none was read.
Gives whether the next one is no longer the first. -/
def element {α : Type} (first : Bool) (read : TextRead α) : TextRead (Option α × Bool) := do
  let (b, first) ← match ← blanks with
    | some 93 => return (none, first)
    | some 44 => if first then pure (some 44, false) else do bump; pure (← blanks, false)
    | some b => if first then pure (some b, false) else failNext "expected `,` or `]`"
    | none => failNext "EOF while parsing a list"
  match b with
  | some 93 => failNext "trailing comma"
  | some _ => do pure (some (← read), first)
  | none => failNext "EOF while parsing a value"

/-- The settings with the fields given, and defaults for the others. -/
def ofElements (d : Config) (network : Option Network) (cw fh fb depth : Option Nat)
    (level : Option String) (json : Option Bool) : Config :=
  { network := network.getD d.network, chainWorkBatchSize := cw.getD d.chainWorkBatchSize,
    filterHeaderBatchSize := fh.getD d.filterHeaderBatchSize, filterBatchSize := fb.getD d.filterBatchSize,
    cacheDepth := depth.getD d.cacheDepth, logLevel := level.getD d.logLevel, logJson := json.getD d.logJson }

/-- Reads the fields of an array in order; a missing one keeps its default. -/
def elements : TextRead Config := do
  let d : Config := {}
  let (network, f) ← element true network
  let (cw, f) ← element f (count u32Max "u32")
  let (fh, f) ← element f (count u32Max "u32")
  let (fb, f) ← element f (count u32Max "u32")
  let (depth, f) ← element f (count u64Max "usize")
  let (level, f) ← element f text
  let (json, _) ← element f boolean
  pure (ofElements d network cw fh fb depth level json)

/-- Reads the end of an object. -/
def endObject : TextRead Unit := do
  match ← blanks with
  | some 125 => bump
  | some 44 => failNext "trailing comma"
  | some _ => failNext "trailing characters"
  | none => failNext "EOF while parsing an object"

/-- Reads the end of an array. -/
def endArray : TextRead Unit := do
  match ← blanks with
  | some 93 => bump
  | some 44 =>
    bump
    match ← blanks with
    | some 93 => failNext "trailing comma"
    | _ => failNext "trailing characters"
  | some _ => failNext "trailing characters"
  | none => failNext "EOF while parsing a list"

/-- Runs `body` and then `close`; an error of the body is placed after `close` has read. -/
def enclosed {α : Type} (body : TextRead α) (close : TextRead Unit) : TextRead α := fun sc =>
  match body sc with
  | .ok a s => match close s with
    | .ok _ s => .ok a s
    | .error e s => .error e s
  | .error e s => (placedAfter (throw e : TextRead α) close) s

/-- Reads settings: an object or an array, and nothing after it but whitespace. -/
def config : TextRead Config := do
  let c ← match ← blanks with
    | none => failNext "EOF while parsing a value"
    | some 91 => do bump; enclosed elements endArray
    | some 123 => do bump; enclosed (do fields ((← get).rest.length + 1) true [] {}) endObject
    | some _ => wrongKind "struct ChainConfig"
  match ← blanks with
  | some _ => failNext "trailing characters"
  | none => pure c

end TextRead

/-- Reads settings from JSON text and checks them. -/
def Config.ofJson (json : String) : Except Error Config :=
  let bytes := json.toUTF8.toList
  match TextRead.config ⟨bytes, bytes⟩ with
  | .ok c _ => do c.validate; pure c
  | .error e _ => .error (.config e.render)

end BitcoinLight
