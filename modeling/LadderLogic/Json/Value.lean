import LadderLogic.Number.Shortest

/-! JSON values and their text. Members of an object keep their order. -/
namespace LadderLogic

namespace Json

/-- A number is an integer of 64 bits or a binary64 number. -/
inductive Number where
  | natural (n : Nat)
  /-- The number `-n`, with `n` positive. -/
  | negative (n : Nat)
  | real (x : Binary64)
deriving DecidableEq, Repr

def Number.render : Number → String
  | .natural n => toString n
  | .negative n => "-" ++ toString n
  | .real x => x.render

end Json

inductive Json where
  | null
  | bool (b : Bool)
  | number (n : Json.Number)
  | string (s : String)
  | array (items : List Json)
  | object (members : List (String × Json))
deriving Inhabited

namespace Json

def nat (n : Nat) : Json := .number (.natural n)

def strings (xs : List String) : Json := .array (xs.map .string)

/-- The member of an object with the given name. -/
def get? (name : String) : Json → Option Json
  | .object members => (members.find? (·.1 == name)).map (·.2)
  | _ => none

def hexDigit (n : Nat) : Char :=
  Nat.digitChar (n % 16)

/-- Quotes, backslashes and control characters are escaped, all else stands for itself. -/
def escapedChar (c : Char) : List Char :=
  if c == '"' then ['\\', '"']
  else if c == '\\' then ['\\', '\\']
  else if c.toNat == 0x8 then ['\\', 'b']
  else if c == '\t' then ['\\', 't']
  else if c == '\n' then ['\\', 'n']
  else if c.toNat == 0xC then ['\\', 'f']
  else if c == '\r' then ['\\', 'r']
  else if c.toNat < 0x20 then ['\\', 'u', '0', '0', hexDigit (c.toNat / 16), hexDigit c.toNat]
  else [c]

def quotedChars (s : String) : List Char :=
  '"' :: (s.toList.flatMap escapedChar ++ ['"'])

mutual

/-- The text without blanks. -/
def compactChars : Json → List Char
  | .null => ['n', 'u', 'l', 'l']
  | .bool true => ['t', 'r', 'u', 'e']
  | .bool false => ['f', 'a', 'l', 's', 'e']
  | .number n => n.render.toList
  | .string s => quotedChars s
  | .array items => '[' :: compactItems true items
  | .object members => '\x7b' :: compactMembers true members

def compactItems (first : Bool) : List Json → List Char
  | [] => [']']
  | v :: rest => (if first then [] else [',']) ++ compactChars v ++ compactItems false rest

def compactMembers (first : Bool) : List (String × Json) → List Char
  | [] => ['\x7d']
  | (k, v) :: rest =>
    (if first then [] else [',']) ++ quotedChars k ++ ':' :: compactChars v ++ compactMembers false rest

end

private def newLine (level : Nat) : List Char :=
  '\n' :: List.replicate (2 * level) ' '

mutual

/-- One item or member a line, two blanks for each level; empty arrays and objects stay on their line. -/
def indentedChars (level : Nat) : Json → List Char
  | .array (v :: rest) => '[' :: indentedItems (level + 1) true (v :: rest)
  | .object (m :: rest) => '\x7b' :: indentedMembers (level + 1) true (m :: rest)
  | .array [] => ['[', ']']
  | .object [] => ['\x7b', '\x7d']
  | .null => compactChars .null
  | .bool b => compactChars (.bool b)
  | .number n => compactChars (.number n)
  | .string s => compactChars (.string s)

def indentedItems (level : Nat) (first : Bool) : List Json → List Char
  | [] => newLine (level - 1) ++ [']']
  | v :: rest =>
    (if first then [] else [',']) ++ newLine level ++ indentedChars level v
      ++ indentedItems level false rest

def indentedMembers (level : Nat) (first : Bool) : List (String × Json) → List Char
  | [] => newLine (level - 1) ++ ['\x7d']
  | (k, v) :: rest =>
    (if first then [] else [',']) ++ newLine level ++ quotedChars k ++ ':' :: ' ' :: indentedChars level v
      ++ indentedMembers level false rest

end

def compact (v : Json) : String :=
  String.ofList v.compactChars

def indented (v : Json) : String :=
  String.ofList (v.indentedChars 0)

end Json

end LadderLogic
