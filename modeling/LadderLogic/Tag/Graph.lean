import LadderLogic.Tag.Role
import LadderLogic.Instruction.Access
import LadderLogic.Rung.Circuit
import LadderLogic.NameMap
import LadderLogic.Sorted

/-! Which rungs of a project read and write each tag. -/
namespace LadderLogic

/-- A rung uses a tag. -/
structure Reference where
  location : Location
  /-- The opcode of the first instruction of the rung that uses the tag so. -/
  opcode : String
  usage : Usage
deriving DecidableEq

/-- Who uses a tag, and what is known about it. -/
structure TagUsage where
  name : String
  readers : List Reference
  writers : List Reference
  role : Role
  dataType : Option String := none
  description : Option String := none
deriving DecidableEq

namespace TagUsage

def referenceCount (t : TagUsage) : Nat :=
  t.readers.length + t.writers.length

def references (t : TagUsage) : List Reference :=
  t.readers ++ t.writers

def referencesFor (t : TagUsage) : Usage → List Reference
  | .read => t.readers
  | .write => t.writers

/-- A tag that nothing is known about but its name. -/
def ofName (name : String) : TagUsage :=
  { name, readers := [], writers := [], role := .unknown }

def add (t : TagUsage) (r : Reference) : TagUsage :=
  match r.usage with
  | .read => { t with readers := t.readers ++ [r] }
  | .write => { t with writers := t.writers ++ [r] }

/-- What the tag's declaration tells about it. The role needs the description. -/
def describe (declared : NameMap Tag) (t : TagUsage) : TagUsage :=
  let declaration := declared.get? t.name
  let description := declaration.bind (·.description)
  { t with
    role := Role.ofTag t.name description
    dataType := declaration.bind fun d => if d.dataType.isEmpty then none else some d.dataType
    description }

end TagUsage

/-- A tag at a place where an instruction uses it. -/
structure Sighting where
  tag : String
  reference : Reference
deriving DecidableEq

/-- The uses of tags in a rung, in order. -/
def Rung.sightings (location : Location) (r : Rung) : List Sighting :=
  r.allInstructions.flatMap fun i =>
    if i.access = .unknown then []
    else i.usedOperands.filterMap fun (operand, usage) =>
      if Operand.isTag operand then some ⟨Text.trim operand, location, i.opcode, usage⟩ else none

/-- All uses of tags in a project, in order. -/
def Project.sightings (p : Project) : List Sighting :=
  p.rungs.flatMap fun (location, rung) => rung.sightings location

/-- The tags met so far on a walk through a project. -/
structure Survey where
  tags : NameMap TagUsage
  /-- The uses that `tags` holds: how a tag is used, the tag and the rung. -/
  seen : List (Usage × String × Location)

namespace Survey

def empty : Survey := ⟨.empty, []⟩

/-- Notes that a rung uses a tag. Only the first use of each kind counts. -/
def record (s : Survey) (x : Sighting) : Survey :=
  let use := (x.reference.usage, x.tag, x.reference.location)
  if s.seen.contains use then s
  else
    let known := (s.tags.get? x.tag).getD (.ofName x.tag)
    { tags := s.tags.insert x.tag (known.add x.reference), seen := use :: s.seen }

def ofSightings (xs : List Sighting) : Survey :=
  xs.foldl record empty

end Survey

/-- The declared tags. A program's tag hides the controller's tag of its name, and a later tag an earlier one. -/
def Project.declaredTags (p : Project) : NameMap Tag :=
  .ofList ((p.tags ++ p.programs.flatMap (·.tags)).map fun t => (t.name, t))

/-- The tags that instructions use, and the tags that are declared. -/
structure TagGraph where
  tags : NameMap TagUsage
  declared : NameMap Tag
deriving DecidableEq

namespace TagGraph

def empty : TagGraph := ⟨.empty, .empty⟩

def ofProject (p : Project) : TagGraph :=
  let declared := p.declaredTags
  { tags := (Survey.ofSightings p.sightings).tags.map (.describe declared), declared }

def get? (g : TagGraph) (tag : String) : Option TagUsage :=
  g.tags.get? tag

/-- The role in the graph; the name tells the role of a tag that the graph does not have. -/
def roleOf (g : TagGraph) (tag : String) : Role :=
  match g.get? tag with
  | some t => t.role
  | none => Role.ofName tag

/-- Declared tags that no instruction uses. -/
def unreferenced (g : TagGraph) : List String :=
  g.declared.names.filter fun name => !g.tags.contains name

/-- The rungs of a routine that use a tag, in ascending order. -/
def rungsUsing (g : TagGraph) (tag program routine : String) (usage : Usage) : List UInt32 :=
  match g.get? tag with
  | none => []
  | some t => ascending (((t.referencesFor usage).filter fun r =>
      r.location.program == program && r.location.routine == routine).map (·.location.number))

end TagGraph

end LadderLogic
