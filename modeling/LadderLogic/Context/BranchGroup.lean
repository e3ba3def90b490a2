import LadderLogic.Tag.Graph
import LadderLogic.Rung.View

/-! Branches of a rung grouped by what they are about. -/
namespace LadderLogic

/-- What a branch is about. -/
inductive Topic where
  | safety
  | motion
  | fault
  | timing
  | status
  | options
  | panel
  | general
deriving DecidableEq

namespace Topic

def all : List Topic :=
  [.safety, .motion, .fault, .timing, .status, .options, .panel, .general]

def name : Topic → String
  | .safety => "safety"
  | .motion => "motion"
  | .fault => "fault"
  | .timing => "timing"
  | .status => "status"
  | .options => "options"
  | .panel => "hmi"
  | .general => "general"

end Topic

namespace Branch

/-- The tags that the branch uses, once each. -/
def tags (b : Branch) : List String :=
  View.tagsUsed b.instructions fun _ => true

def topic (graph : TagGraph) (b : Branch) : Topic :=
  let has (role : Role) : Bool := (b.tags.map graph.roleOf).contains role
  let timing := b.instructions.any (·.hasOpcode (Opcode.timers ++ Opcode.counters))
  if has .safety then .safety
  else if has .fault then .fault
  else if has .motor || has .valve then .motion
  else if timing || has .timer || has .counter then .timing
  else if b.tags.any Vocabulary.optionBit.recognizes then .options
  else if has .status then .status
  else if has .panel then .panel
  else .general

end Branch

/-- The branches of one topic and their tags. -/
structure BranchGroup where
  topic : Topic
  branches : List Nat
  tags : List String
deriving DecidableEq

namespace BranchGroup

/-- Puts a branch in the group of its topic, or in a new one at the end. -/
def add (topic : Topic) (index : Nat) (tags : List String) : List BranchGroup → List BranchGroup
  | [] => [⟨topic, [index], tags⟩]
  | g :: rest =>
    if g.topic = topic then
      { g with branches := g.branches ++ [index], tags := (g.tags ++ tags).eraseDups } :: rest
    else g :: add topic index tags rest

/-- The groups of a rung with two or more branches, by their first branch. -/
def ofView (v : View) (graph : TagGraph) : List BranchGroup :=
  if v.circuit.branches.length < 2 then []
  else v.circuit.branches.foldl (fun groups b => add (b.topic graph) b.index b.tags groups) []

end BranchGroup

end LadderLogic
