import LadderLogic.Project.Basic

/-! Instruction calls in the text of a rung: names, directly followed by operands in parentheses. A call that is
never closed takes the rest of the text as its operands. Only parentheses count when the closing one is looked
for; commas inside parentheses or square brackets do not separate operands. -/
namespace LadderLogic

namespace Delimited

/-- The nesting depth after a character, where a surplus closing bracket does not count. -/
def depthAfter (depth : Nat) (c : Char) : Nat :=
  if c == '(' || c == '[' then depth + 1
  else if c == ')' || c == ']' then depth - 1
  else depth

def extend (c : Char) : List (List Char) → List (List Char)
  | [] => [[c]]
  | part :: parts => (c :: part) :: parts

/-- The parts between the commas at depth zero, seen from inside `depth` brackets. -/
def splitFrom (depth : Nat) : List Char → List (List Char)
  | [] => [[]]
  | c :: cs =>
    if c == ',' && depth == 0 then [] :: splitFrom 0 cs
    else extend c (splitFrom (depthAfter depth c) cs)

/-- The parts between the commas that stand outside parentheses and square brackets. -/
def splitTopLevel (cs : List Char) : List (List Char) :=
  splitFrom 0 cs

/-- The text up to the bracket that closes one opened before it, and the text after that bracket. In between `more`
further brackets of the kind are open. -/
def closing (opener closer : Char) (more : Nat) : List Char → Option (List Char × List Char)
  | [] => none
  | c :: cs =>
    if c == opener then (closing opener closer (more + 1) cs).map fun (inner, rest) => (c :: inner, rest)
    else if c == closer then
      match more with
      | 0 => some ([], cs)
      | more + 1 => (closing opener closer more cs).map fun (inner, rest) => (c :: inner, rest)
    else (closing opener closer more cs).map fun (inner, rest) => (c :: inner, rest)

end Delimited

/-- A name and the text between its parentheses. -/
structure Call where
  name : List Char
  body : List Char
deriving DecidableEq

namespace Call

def isNameStart (c : Char) : Bool :=
  c.isAlpha || c == '_'

def isNameChar (c : Char) : Bool :=
  c.isAlphanum || c == '_'

/-- What the characters before a place have led to. -/
inductive Scan where
  /-- Outside a call, after the characters of a name, or of none. -/
  | outside (name : List Char)
  /-- Inside a call, after a part of its body with `more` open parentheses. -/
  | inside (name : List Char) (more : Nat) (body : List Char)

/-- The calls of a text that is read from a given state on. A name does not start with a digit. -/
def scan : Scan → List Char → List Call
  | .outside _, [] => []
  | .inside name _ body, [] => [⟨name, body⟩]
  | .outside name, c :: cs =>
    if c == '(' && !name.isEmpty then scan (.inside name 0 []) cs
    else if isNameStart c || (isNameChar c && !name.isEmpty) then scan (.outside (name ++ [c])) cs
    else scan (.outside []) cs
  | .inside name more body, c :: cs =>
    if c == '(' then scan (.inside name (more + 1) (body ++ [c])) cs
    else if c == ')' then
      match more with
      | 0 => ⟨name, body⟩ :: scan (.outside []) cs
      | more + 1 => scan (.inside name more (body ++ [c])) cs
    else scan (.inside name more (body ++ [c])) cs

/-- The calls of a text, in order. -/
def all (cs : List Char) : List Call :=
  scan (.outside []) cs

/-- The operands of a text between parentheses: without blanks around them, and none of them empty. -/
def operands (cs : List Char) : List String :=
  ((Delimited.splitTopLevel cs).map Text.trimChars).filterMap fun part =>
    if part.isEmpty then none else some (String.ofList part)

def toInstruction (c : Call) : Instruction :=
  { kind := String.ofList c.name, operands := operands c.body }

end Call

/-- The instructions that a text calls, in order. -/
def Instruction.allIn (cs : List Char) : List Instruction :=
  (Call.all cs).map Call.toInstruction

end LadderLogic
