import LadderLogic.Text.Blank
import LadderLogic.Text.Letter

/-! Words that names end in. Blanks around a name and ASCII case do not matter. -/
namespace LadderLogic.Ending

/-- A name as its ending is looked at. -/
def normal (name : String) : List Char :=
  Text.upperChars (Text.trimChars name.toList)

/-- The name ends in the upper-case word. -/
def endsIn (name word : String) : Bool :=
  word.toList.isSuffixOf (normal name)

/-- The name starts with the upper-case word. -/
def startsWith (name word : String) : Bool :=
  word.toList.isPrefixOf (normal name)

/-- Endings of outputs that report a state rather than command one. -/
def statusWords : List String :=
  ["STOPPED", "RUNNING", "OK", "READY", "ACTIVE", "STATUS", "COMPLETE", "DONE"]

def reportsStatus (name : String) : Bool :=
  statusWords.any (endsIn name)

/-- Endings of bits. -/
def bitWords : List String :=
  [".DN", ".EN", ".TT", ".CU", ".CD", ".OV", ".UN", "OK", "_ON", "_OFF", "RUNNING", "READY", "ACTIVE",
   "DONE", "ENABLE", "ENABLED", "FAULT", "ALARM", "OPEN", "OPENED", "CLOSED", "FLAG", "BIT", "STOPPED",
   "REQUEST", "_PB"]

/-- The name says that the tag is a bit. -/
def namesBit (name : String) : Bool :=
  startsWith name "B_" || startsWith name "BOOL" || bitWords.any (endsIn name)

end LadderLogic.Ending
