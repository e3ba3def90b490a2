import LadderLogic.Vocabulary.Subject

/-! Subsystems of a machine that tags belong to. -/
namespace LadderLogic.Subsystem

open Vocabulary (words)

/-- The vocabularies of the subsystems, by their labels. -/
def vocabularies : List (Vocabulary × String) :=
  [(Vocabulary.emergencyStop, "Emergency Stop"),
   (Vocabulary.gate, "Gate"),
   (words ["CONVEYOR"] ++ [Vocabulary.Term.segment "CONV"], "Conveyor"),
   (words ["HYD"], "Hydraulic"),
   (words ["PNEU", "AIR_", "_AIR"], "Pneumatic"),
   (words ["LUBE", "LUBR", "OILER"], "Lubrication"),
   (words ["SPINDLE"], "Spindle"),
   (words ["COOLANT", "COOL_"], "Coolant"),
   (words ["ROBOT", "RBT"], "Robot"),
   (words ["VISION", "CAMERA"], "Vision"),
   (words ["PUMP"], "Pump"),
   (words ["HEAT", "OVEN", "FURNACE"], "Heating"),
   (words ["CLAMP"], "Clamp"),
   (words ["VACUUM", "VAC_"], "Vacuum"),
   (words ["TANK"], "Tank"),
   (words ["FEEDER", "INFEED"], "Feeder"),
   (words ["POWER", "PWR"], "Power")]

/-- The labels for one tag. -/
def ofTag (tag : String) : List String :=
  (vocabularies.filter fun (v, _) => v.recognizes tag).map (·.2)

/-- The labels for some tags, once each, as they first appear. -/
def ofTags (tags : List String) : List String :=
  (tags.flatMap ofTag).eraseDups

/-- A tag is an option bit, so the machine's configuration matters. -/
def hasOptionBits (tags : List String) : Bool :=
  tags.any Vocabulary.optionBit.recognizes

end LadderLogic.Subsystem
