import LadderLogic.Rung.Call

/-! The circuit of a rung: a part that all paths share, one group of parallel branches, and a part that all
paths share again. The group is the first pair of square brackets outside parentheses that holds a call or a
comma outside parentheses. Other square brackets are array indices, and a rung without a group is one line. -/
namespace LadderLogic

/-- One of the parallel branches of a group. -/
structure Branch where
  index : Nat
  text : String
  instructions : List Instruction
deriving DecidableEq

structure Circuit where
  before : List Instruction := []
  branches : List Branch := []
  after : List Instruction := []
deriving DecidableEq

namespace Circuit

/-- A text around its group. A group that is not closed reaches to the end, and nothing follows it. -/
structure Split where
  before : List Char
  group : List Char
  after : List Char
deriving DecidableEq

/-- A comma outside parentheses, seen from inside `depth` of them. -/
def hasCommaFrom (depth : Nat) : List Char → Bool
  | [] => false
  | c :: cs =>
    if c == '(' then hasCommaFrom (depth + 1) cs
    else if c == ')' then hasCommaFrom (depth - 1) cs
    else (c == ',' && depth == 0) || hasCommaFrom depth cs

/-- Square brackets around this text make a group rather than an index. -/
def isGroup (cs : List Char) : Bool :=
  !(Call.all cs).isEmpty || hasCommaFrom 0 cs

/-- What the characters before a place have led to. -/
inductive Place where
  /-- Inside so many parentheses. -/
  | line (depth : Nat)
  /-- Inside an index, with so many further square brackets open. -/
  | index (more : Nat)

def extend (c : Char) (s : Split) : Split :=
  { s with before := c :: s.before }

/-- The first group of a text that is read from a given place on. -/
def splitFrom : Place → List Char → Option Split
  | _, [] => none
  | .line depth, c :: cs =>
    if c == '(' then (splitFrom (.line (depth + 1)) cs).map (extend c)
    else if c == ')' then (splitFrom (.line (depth - 1)) cs).map (extend c)
    else if c == '[' && depth == 0 then
      match Delimited.closing '[' ']' 0 cs with
      | some (inner, rest) =>
        if isGroup inner then some ⟨[], inner, rest⟩ else (splitFrom (.index 0) cs).map (extend c)
      | none => if isGroup cs then some ⟨[], cs, []⟩ else none
    else (splitFrom (.line depth) cs).map (extend c)
  | .index more, c :: cs =>
    if c == '[' then (splitFrom (.index (more + 1)) cs).map (extend c)
    else if c == ']' then
      match more with
      | 0 => (splitFrom (.line 0) cs).map (extend c)
      | more + 1 => (splitFrom (.index more) cs).map (extend c)
    else (splitFrom (.index more) cs).map (extend c)

/-- The text around its first group, if it has one. -/
def split? (cs : List Char) : Option Split :=
  splitFrom (.line 0) cs

def branch (part : List Char) (index : Nat) : Branch :=
  { index, text := String.ofList (Text.trimChars part), instructions := Instruction.allIn part }

def ofChars (cs : List Char) : Circuit :=
  match split? cs with
  | none => { before := Instruction.allIn cs }
  | some s =>
    { before := Instruction.allIn s.before
      branches := (Delimited.splitTopLevel s.group).zipIdx.map fun (part, index) => branch part index
      after := Instruction.allIn s.after }

/-- The circuit that a text describes. -/
def ofText (text : String) : Circuit :=
  ofChars text.toList

def isLinear (c : Circuit) : Bool :=
  c.branches.isEmpty

/-- Every instruction, in text order. -/
def instructions (c : Circuit) : List Instruction :=
  c.before ++ c.branches.flatMap (·.instructions) ++ c.after

/-- The paths through the rung: the shared parts with each branch between them. -/
def paths (c : Circuit) : List (List Instruction) :=
  if c.branches.isEmpty then [c.before ++ c.after]
  else c.branches.map fun b => c.before ++ b.instructions ++ c.after

end Circuit

/-- The instructions of a rung: those given with it, else those of its text. -/
def Rung.allInstructions (r : Rung) : List Instruction :=
  if r.instructions.isEmpty then (Circuit.ofText r.text).instructions else r.instructions

end LadderLogic
