import LadderLogic.Context.Basic

/-! The figures of a whole project. -/
namespace LadderLogic

/-- A tag that is worth a look. -/
structure KeyTag where
  name : String
  role : Role
  readers : Nat
  writers : Nat
  references : Nat
deriving DecidableEq

structure Summary where
  totalRungs : Nat
  safetyRungs : Nat
  motorControlRungs : Nat
  timerRungs : Nat
  counterRungs : Nat
  totalTags : Nat
  unreferencedTags : Nat
  patternCounts : List (PatternKind × Nat)
  categoryCounts : List (Category × Nat)
  keyTags : List KeyTag
deriving DecidableEq

/-- How often each value occurs, the most frequent first. Of values that occur equally often the one that comes first
in `all` stands first, and values that do not occur are left out. -/
def histogram [DecidableEq α] (all xs : List α) : List (α × Nat) :=
  sortedBy (fun a b => b.2 ≤ a.2) ((all.map fun a => (a, xs.count a)).filter fun e => 0 < e.2)

namespace KeyTag

def ofUsage (t : TagUsage) : KeyTag :=
  ⟨t.name, t.role, t.readers.length, t.writers.length, t.referenceCount⟩

/-- Tags of safety, motors and faults, and tags that are used often. -/
def isEligible (minReferences : Nat) (t : TagUsage) : Bool :=
  [Role.safety, .motor, .fault].contains t.role || minReferences ≤ t.referenceCount

/-- Most references first, then by name. -/
def precedes (a b : KeyTag) : Bool :=
  b.references < a.references || (a.references == b.references && a.name ≤ b.name)

/-- The key tags of a graph, in order and capped. -/
def ofGraph (graph : TagGraph) (settings : Settings) : List KeyTag :=
  (sortedBy precedes ((graph.tags.values.filter (isEligible settings.keyTagMinReferences.toNat)).map
    ofUsage)).take settings.maxKeyTags.toNat

end KeyTag

def Summary.ofContexts (contexts : List Context) (graph : TagGraph) (settings : Settings) : Summary :=
  let showing (kind : PatternKind) : Nat := contexts.countP fun c => Pattern.fired c.patterns kind
  { totalRungs := contexts.length
    safetyRungs := contexts.countP (·.safetyRelevant)
    motorControlRungs := contexts.countP (·.category == .motorControl)
    timerRungs := showing .timerDelay
    counterRungs := showing .counterAccumulator
    totalTags := graph.tags.size
    unreferencedTags := graph.unreferenced.length
    patternCounts := histogram PatternKind.all ((contexts.flatMap (·.patterns)).map (·.kind))
    categoryCounts := histogram Category.all (contexts.map (·.category))
    keyTags := KeyTag.ofGraph graph settings }

end LadderLogic
