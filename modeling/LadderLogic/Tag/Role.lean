import LadderLogic.Vocabulary.Subject
import LadderLogic.Text.Blank

/-! The role of a tag, as its name or else its description tells it. -/
namespace LadderLogic

inductive Role where
  | safety
  | motor
  | valve
  | sensor
  | timer
  | counter
  | fault
  | status
  | command
  | feedback
  | sequence
  | panel
  | address
  | unknown
deriving DecidableEq

namespace Role

def all : List Role :=
  [.safety, .motor, .valve, .sensor, .timer, .counter, .fault, .status, .command, .feedback, .sequence,
   .panel, .address, .unknown]

def name : Role → String
  | .safety => "safety"
  | .motor => "motor"
  | .valve => "valve"
  | .sensor => "sensor"
  | .timer => "timer"
  | .counter => "counter"
  | .fault => "fault"
  | .status => "status"
  | .command => "command"
  | .feedback => "feedback"
  | .sequence => "sequence"
  | .panel => "hmi"
  | .address => "io"
  | .unknown => "unknown"

open Vocabulary (words)
open Vocabulary.Term (word starting ending letters)

/-- An element of a data file such as `T4:0`: the letter, the file's number and the element's number. -/
private def fileElement (letter : Char) : Vocabulary.Term :=
  { left := .start, glyphs := [.char letter, .digits, .char ':', .digits] }

/-- The vocabularies of the roles. The first one that recognizes a name decides. -/
def vocabularies : List (Vocabulary × Role) :=
  [(Vocabulary.safety ++ words ["SAFE"], .safety),
   (Vocabulary.fault ++ words ["ALARM", "ALM"], .fault),
   ([fileElement 'T'] ++ words ["TIMER", "TMR", "DELAY", "_TON", "_TOF"], .timer),
   ([fileElement 'C'] ++ words ["COUNTER", "COUNT", "CNT", "CTR"], .counter),
   (Vocabulary.sequence, .sequence),
   (Vocabulary.rotating, .motor),
   (words ["VALVE", "VLV", "SOLENOID", "SOL_", "_SOL", "CYLINDER", "CYL_", "_CYL", "DAMPER"], .valve),
   (words ["HMI", "SCREEN", "DISPLAY", "PANEL", "OIT"] ++ [starting "PB_", ending "_PB"] ++ words ["_PB_"],
    .panel),
   (words ["CMD", "COMMAND", "REQ", "START"] ++ [ending "STOP"] ++ words ["STOP_", "RESET", "ENABLE"],
    .command),
   (words ["FEEDBACK", "_FB"] ++ [ending "FB"] ++ words ["ACK", "CONFIRM", "AUX", "PROOF"], .feedback),
   (words ["STATUS", "RUNNING", "READY", "ACTIVE", "DONE", "COMPLETE", "STOPPED", "IDLE", "BUSY"]
     ++ [ending "OK"] ++ words ["_OK"], .status),
   (words ["SENSOR", "PROX", "PHOTO", "LIMIT"] ++ [starting "LS_", ending "_LS"] ++ words ["_LS_"]
     ++ [starting "PE_"] ++ words ["LEVEL", "PRESS", "TEMP", "FLOW", "SWITCH"], .sensor),
   ([{ left := .start, glyphs := letters "LOCAL:" ++ [.digits, .char ':', .oneOf ['I', 'O']] },
     { left := .start, glyphs := [.oneOf ['I', 'O'], .char ':', .digits] }] ++ words [":I.", ":O."],
    .address)]

/-- The role that a name tells. -/
def ofName (name : String) : Role :=
  match vocabularies.find? fun (v, _) => v.recognizes (Text.trim name) with
  | some (_, role) => role
  | none => .unknown

/-- The role that a name tells, or else a description. -/
def ofTag (name : String) (description : Option String) : Role :=
  match ofName name with
  | .unknown => (description.map ofName).getD .unknown
  | role => role

end Role

end LadderLogic
