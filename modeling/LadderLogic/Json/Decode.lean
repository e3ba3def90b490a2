import LadderLogic.Json.Reader
import LadderLogic.Text.Quoted
import LadderLogic.Text.Listing

/-! Records, lists and names out of documents. A record is written as an object or as the array of its fields. A
decoder reads in text order and stops at the first fault, so of two faults the earlier one is reported, except
that a missing field is noticed when the object closes. -/
namespace LadderLogic.Json

/-- The kind of a value that is not of the kind asked for. -/
inductive Found where
  | null
  | bool (b : Bool)
  | number (n : Number)
  | string (s : String)
  | array
  | object
deriving DecidableEq

def Found.message : Found → String
  | .null => "null"
  | .bool b => "boolean `" ++ (if b then "true" else "false") ++ "`"
  | .number (.real x) => "floating point `" ++ x.render ++ "`"
  | .number n => "integer `" ++ n.render ++ "`"
  | .string s => "string " ++ Text.quoted s
  | .array => "sequence"
  | .object => "map"

/-- Why a document is not the thing asked for. -/
inductive ReadError where
  | fault (f : Fault)
  | invalidType (found : Found) (expected : String)
  | invalidValue (found : Found) (expected : String)
  /-- An array that ends before the field at `index`, which its record requires. -/
  | tooShort (index : Nat) (record : String) (fields : Nat)
  /-- An array with more elements than the record has fields. -/
  | tooLong (length : Nat)
  | missingField (name : String)
  | duplicateField (name : String)
  | unknownField (name : String) (known : List String)
  | unknownName (name : String) (known : List String)
deriving DecidableEq

/-- Errors are of the text, of its early end, or of the data. -/
inductive ErrorKind where
  | syntactic
  | ending
  | data
deriving DecidableEq

def ReadError.kind : ReadError → ErrorKind
  | .fault f => if f.isEnd then .ending else .syntactic
  | .tooLong _ => .syntactic
  | _ => .data

/-- A choice of names in a message. -/
def alternatives : List String → String
  | [a] => "`" ++ a ++ "`"
  | [a, b] => "`" ++ a ++ "` or `" ++ b ++ "`"
  | names => "one of " ++ Text.joined ", " (names.map fun n => "`" ++ n ++ "`")

/-- What is wrong, without the place: a document keeps no positions, so no message ends in ` at line L column C`. -/
def ReadError.message : ReadError → String
  | .fault f => f.message
  | .invalidType found expected => "invalid type: " ++ found.message ++ ", expected " ++ expected
  | .invalidValue found expected => "invalid value: " ++ found.message ++ ", expected " ++ expected
  | .tooShort index record fields =>
    "invalid length " ++ toString index ++ ", expected " ++ record ++ " with " ++ toString fields
      ++ " elements"
  | .tooLong _ => Fault.trailingCharacters.message
  | .missingField name => "missing field `" ++ name ++ "`"
  | .duplicateField name => "duplicate field `" ++ name ++ "`"
  | .unknownField name known => "unknown field `" ++ name ++ "`, expected " ++ alternatives known
  | .unknownName name known => "unknown variant `" ++ name ++ "`, expected " ++ alternatives known

/-- The message about a value that did not come from a text. There only a record's length is told otherwise. -/
def ReadError.valueMessage : ReadError → String
  | .tooLong length => "invalid length " ++ toString length ++ ", expected fewer elements in array"
  | e => e.message

abbrev Decoder (α : Type) := Document → Except ReadError α

namespace Decoder

/-- A document of the wrong kind. Arrays and objects are refused unread. -/
def mismatch (expected : String) : Document → ReadError
  | .null => .invalidType .null expected
  | .bool b => .invalidType (.bool b) expected
  | .number (.ok n) => .invalidType (.number n) expected
  | .string (.ok s) => .invalidType (.string s) expected
  | .number (.error f) => .fault f
  | .string (.error f) => .fault f
  | .array _ => .invalidType .array expected
  | .object _ => .invalidType .object expected
  | .broken reading _ => .fault reading

def string : Decoder String
  | .string (.ok s) => .ok s
  | d => .error (mismatch "a string" d)

def bool : Decoder Bool
  | .bool b => .ok b
  | d => .error (mismatch "a boolean" d)

/-- A natural number below `bound`, called `title` in messages. -/
def natural (bound : Nat) (title : String) : Decoder Nat
  | .number (.ok (.natural n)) =>
    if n < bound then .ok n else .error (.invalidValue (.number (.natural n)) title)
  | .number (.ok (.negative n)) => .error (.invalidValue (.number (.negative n)) title)
  | d => .error (mismatch title d)

def word32 : Decoder UInt32 :=
  fun d => (natural UInt32.size "u32" d).map UInt32.ofNat

def count : Decoder Nat :=
  natural UInt64.size "usize"

def word64 : Decoder UInt64 :=
  fun d => (count d).map UInt64.ofNat

def real : Decoder Binary64
  | .number (.ok (.real x)) => .ok x
  | .number (.ok (.natural n)) => ofInteger false n
  | .number (.ok (.negative n)) => ofInteger true n
  | d => .error (mismatch "f64" d)
where
  ofInteger (negative : Bool) (n : Nat) : Except ReadError Binary64 :=
    match Binary64.ofRatio negative n 1 with
    | some x => .ok x
    | none => .error (.fault .numberOutOfRange)

/-- A value or null. -/
def option (inner : Decoder α) : Decoder (Option α)
  | .null => .ok none
  | d => (inner d).map some

def asRead (r : Except Fault α) : Except ReadError α :=
  r.mapError .fault

def items (inner : Decoder α) : Items → Except ReadError (List α)
  | .stop ending => do
    asRead ending.endItems
    return []
  | .item value rest => do
    let a ← inner value
    return a :: (← items inner rest)

def list (inner : Decoder α) : Decoder (List α)
  | .array xs => items inner xs
  | d => .error (mismatch "a sequence" d)

def members (inner : Decoder α) : Members → Except ReadError (List (String × α))
  | .stop ending => do
    asRead ending.endMembers
    return []
  | .member key value rest => do
    let k ← asRead key
    let a ← inner value
    return (k, a) :: (← members inner rest)

/-- The members of an object that maps names to values, in text order. -/
def table (inner : Decoder α) : Decoder (List (String × α))
  | .object ms => members inner ms
  | d => .error (mismatch "a map" d)

/-- One of the named values: a string, or an object with the name as its only key and null as its value. -/
def named (all : List α) (name : α → String) : Decoder α
  | .string (.ok s) => find s
  | .object (.member (.ok s) value (.stop .closed)) => do
    let a ← find s
    match value with
    | .null => return a
    | d => .error (mismatch "unit" d)
  | .object _ => .error (.invalidValue .object "map with a single key")
  | d => .error (mismatch "string or map" d)
where
  find (s : String) : Except ReadError α :=
    match all.find? (fun a => name a == s) with
    | some a => .ok a
    | none => .error (.unknownName s (all.map name))

end Decoder

/-- A field of a record: how a document updates the record. -/
structure Field (α : Type) where
  name : String
  required : Bool
  update : Document → Except ReadError (α → α)

/-- A field that must be there. -/
def Field.mandatory (name : String) (inner : Decoder β) (set : β → α → α) : Field α :=
  ⟨name, true, fun d => (inner d).map set⟩

/-- A field that may be left out. -/
def Field.optional (name : String) (inner : Decoder β) (set : β → α → α) : Field α :=
  ⟨name, false, fun d => (inner d).map set⟩

/-- How a record is read. -/
structure Record (α : Type) where
  /-- What messages call it. -/
  title : String
  /-- The record before any field has been read. It keeps its values in the fields that are left out. -/
  blank : α
  /-- In the order of the array form. -/
  fields : List (Field α)
  /-- Whether other fields are refused. -/
  strict : Bool := false

namespace Record

def fieldNames (r : Record α) : List String :=
  r.fields.map (·.name)

/-- The first required field that was not seen. -/
def missing? (r : Record α) (seen : List String) : Option String :=
  (r.fields.find? fun f => f.required && !seen.contains f.name).map (·.name)

def readMembers (r : Record α) (seen : List String) (a : α) : Members → Except ReadError α
  | .stop ending => do
    ending.endMembers.mapError .fault
    match r.missing? seen with
    | some name => .error (.missingField name)
    | none => return a
  | .member key value rest => do
    let k ← key.mapError .fault
    match r.fields.find? (·.name == k) with
    | some f =>
      if seen.contains k then .error (.duplicateField k)
      else do
        let set ← f.update value
        r.readMembers (k :: seen) (set a) rest
    | none =>
      if r.strict then .error (.unknownField k r.fieldNames)
      else do
        value.skip.mapError .fault
        r.readMembers seen a rest

/-- What may follow the last field of a record written as an array of `length` items. -/
def endItems (length : Nat) : Items → Except ReadError Unit
  | .stop .closed => .ok ()
  | .stop .cut => .error (.fault .endInArray)
  | .stop .danglingComma => .error (.fault .trailingComma)
  | _ => .error (.tooLong length)

/-- Reads one item for each field; the fields of an array that closes early keep their values, unless they are
required. -/
def readItems (r : Record α) (length : Nat) : List (Field α) → α → Items → Except ReadError α
  | [], a, items => do
    endItems length items
    return a
  | f :: fields, a, .item value rest => do
    let set ← f.update value
    r.readItems length fields (set a) rest
  | f :: fields, a, .stop ending => do
    ending.endItems.mapError .fault
    if f.required then
      .error (.tooShort (r.fields.length - (fields.length + 1)) r.title r.fields.length)
    else r.readItems length fields a (.stop ending)

def decode (r : Record α) : Decoder α
  | .object ms => r.readMembers [] r.blank ms
  | .array xs => r.readItems xs.length r.fields r.blank xs
  | d => .error (Decoder.mismatch r.title d)

end Record

/-- Reads a text that holds one value and nothing after it. -/
def readText (inner : Decoder α) (text : String) : Except ReadError α := do
  let (document, rest) := Document.read text.toList
  let a ← inner document
  if (skipSpace (rest.getD [])).isEmpty then return a
  else .error (.fault .trailingCharacters)

mutual

/-- The value of a document without faults. -/
def Document.toJson : Document → Except Fault Json
  | .null => .ok .null
  | .bool b => .ok (.bool b)
  | .number n => n.map .number
  | .string s => s.map .string
  | .array items => items.toJson.map .array
  | .object members => members.toJson.map .object
  | .broken reading _ => .error reading

def Items.toJson : Items → Except Fault (List Json)
  | .stop ending => ending.endItems.map fun _ => []
  | .item value rest => do
    let v ← value.toJson
    return v :: (← rest.toJson)

def Members.toJson : Members → Except Fault (List (String × Json))
  | .stop ending => ending.endMembers.map fun _ => []
  | .member key value rest => do
    let k ← key
    let v ← value.toJson
    return (k, v) :: (← rest.toJson)

end

/-- Any JSON text as a value. -/
def parse (text : String) : Except ReadError Json :=
  readText (fun d => d.toJson.mapError .fault) text

end LadderLogic.Json
