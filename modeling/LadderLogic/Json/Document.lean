import LadderLogic.Json.Value

/-! A JSON text as far as it can be read. A fault of the text is kept in the tree at the place where it stands,
so that whoever walks the tree from left to right meets the first fault first, be it one of the text or one of
the data. -/
namespace LadderLogic.Json

/-- Why a text is not JSON. -/
inductive Fault where
  | expectedValue
  | expectedWord
  | expectedColon
  | expectedMemberEnd
  | expectedItemEnd
  | keyNotString
  | trailingComma
  | trailingCharacters
  | invalidNumber
  | numberOutOfRange
  | invalidEscape
  | loneSurrogate
  | hexEscapeEnds
  | controlCharacter
  | endInValue
  | endInObject
  | endInArray
  | endInString
deriving DecidableEq, Repr

/-- The text ended too early. -/
def Fault.isEnd : Fault → Bool
  | .endInValue | .endInObject | .endInArray | .endInString => true
  | _ => false

def Fault.message : Fault → String
  | .expectedValue => "expected value"
  | .expectedWord => "expected ident"
  | .expectedColon => "expected `:`"
  | .expectedMemberEnd => "expected `,` or `\x7d`"
  | .expectedItemEnd => "expected `,` or `]`"
  | .keyNotString => "key must be a string"
  | .trailingComma => "trailing comma"
  | .trailingCharacters => "trailing characters"
  | .invalidNumber => "invalid number"
  | .numberOutOfRange => "number out of range"
  | .invalidEscape => "invalid escape"
  | .loneSurrogate => "lone leading surrogate in hex escape"
  | .hexEscapeEnds => "unexpected end of hex escape"
  | .controlCharacter => "control character (\\u0000-\\u001F) found while parsing a string"
  | .endInValue => "EOF while parsing a value"
  | .endInObject => "EOF while parsing an object"
  | .endInArray => "EOF while parsing a list"
  | .endInString => "EOF while parsing a string"

/-- How a sequence of items or members ends. -/
inductive Ending where
  /-- The closing bracket. -/
  | closed
  /-- The text ends where a comma or the closing bracket could stand. -/
  | cut
  /-- The text ends after a comma. -/
  | cutAfterComma
  /-- Something else stands where a comma or the closing bracket should. -/
  | junk
  /-- The closing bracket follows a comma. -/
  | danglingComma
  /-- Something other than a string stands where a key should. -/
  | noKey
  /-- A key that is no string, as one who reads it and one who skips it sees it. -/
  | brokenKey (reading skipping : Fault)
deriving DecidableEq

mutual

/-- A value as far as the text has it. Strings and numbers that are well delimited can still be unreadable:
this matters only to one who reads them. -/
inductive Document where
  | null
  | bool (b : Bool)
  | number (value : Except Fault Number)
  | string (content : Except Fault String)
  | array (items : Items)
  | object (members : Members)
  /-- No value: the fault that one who reads the value finds, and the one found in skipping it. -/
  | broken (reading skipping : Fault)

inductive Items where
  | stop (ending : Ending)
  | item (value : Document) (rest : Items)

inductive Members where
  | stop (ending : Ending)
  | member (key : Except Fault String) (value : Document) (rest : Members)

end

/-- The items that stand there, whatever the ending. -/
def Items.length : Items → Nat
  | .stop _ => 0
  | .item _ rest => rest.length + 1

mutual

/-- The document of a value. -/
def Document.ofJson : Json → Document
  | .null => .null
  | .bool b => .bool b
  | .number n => .number (.ok n)
  | .string s => .string (.ok s)
  | .array items => .array (Items.ofList items)
  | .object members => .object (Members.ofList members)

def Items.ofList : List Json → Items
  | [] => .stop .closed
  | v :: rest => .item (Document.ofJson v) (Items.ofList rest)

def Members.ofList : List (String × Json) → Members
  | [] => .stop .closed
  | (k, v) :: rest => .member (.ok k) (Document.ofJson v) (Members.ofList rest)

end

mutual

/-- Skipping a value finds only faults of the text. -/
def Document.skip : Document → Except Fault Unit
  | .array items => items.skip
  | .object members => members.skip
  | .broken _ skipping => .error skipping
  | _ => .ok ()

def Items.skip : Items → Except Fault Unit
  | .stop .closed => .ok ()
  | .stop .cut => .error .endInArray
  | .stop .cutAfterComma => .error .endInValue
  | .stop .danglingComma => .error .expectedValue
  | .stop _ => .error .expectedItemEnd
  | .item value rest => do value.skip; rest.skip

def Members.skip : Members → Except Fault Unit
  | .stop .closed => .ok ()
  | .stop .cut => .error .endInObject
  | .stop .cutAfterComma => .error .endInObject
  | .stop .danglingComma => .error .keyNotString
  | .stop .noKey => .error .keyNotString
  | .stop (.brokenKey _ skipping) => .error skipping
  | .stop .junk => .error .expectedMemberEnd
  | .member _ value rest => do value.skip; rest.skip

end

/-- What one who reads all items finds at their end. -/
def Ending.endItems : Ending → Except Fault Unit
  | .closed => .ok ()
  | .cut => .error .endInArray
  | .cutAfterComma => .error .endInValue
  | .danglingComma => .error .trailingComma
  | _ => .error .expectedItemEnd

/-- What one who reads all members finds at their end. -/
def Ending.endMembers : Ending → Except Fault Unit
  | .closed => .ok ()
  | .cut => .error .endInObject
  | .cutAfterComma => .error .endInValue
  | .danglingComma => .error .trailingComma
  | .noKey => .error .keyNotString
  | .brokenKey reading _ => .error reading
  | .junk => .error .expectedMemberEnd

end LadderLogic.Json
