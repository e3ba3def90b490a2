import LadderLogic.Vocabulary.Term

/-! The vocabularies of the subjects that names speak of. -/
namespace LadderLogic.Vocabulary

open Term (word starting ending segment letters)

/-- Emergency stops: after another letter only in the spelling `EStop`. -/
def emergencyStop : Vocabulary :=
  [{ left := .noLetter, glyphs := .char 'E' :: .optional ['_', '-'] :: letters "STOP" },
   { glyphs := [.exactly 'E', .optional ['_'], .exactly 'S', .exactly 't', .exactly 'o', .exactly 'p'] },
   word "EMERG"]

def gate : Vocabulary := words ["GATE", "DOOR"]

def lightCurtain : Term :=
  { glyphs := letters "LIGHT" ++ .optional ['_'] :: letters "CURTAIN" }

def guard : Vocabulary := [word "GUARD", lightCurtain, word "SCANNER"]

def safety : Vocabulary :=
  emergencyStop ++ words ["SAFETY", "GUARD", "GATE", "DOOR"] ++ [lightCurtain]
    ++ words ["INTERLOCK", "INTLK", "MCR"]

/-- Machines that turn. -/
def rotating : Vocabulary :=
  words ["MOTOR", "MTR", "PUMP", "FAN", "BLOWER", "DRIVE", "VFD", "SPINDLE", "CONVEYOR", "AGITATOR",
    "COMPRESSOR", "MIXER"]

def motor : Vocabulary := rotating ++ [segment "CONV"]

def startStop : Vocabulary := words ["START", "STRT", "STOP", "STP", "RUN"]

def fault : Vocabulary :=
  words ["FAULT", "FLT", "FAIL", "ERROR"] ++ [segment "ERR"]
    ++ [{ left := .notLetter 'S', glyphs := letters "TRIP" }] ++ words ["OVERLOAD"]

def command : Vocabulary := words ["CMD", "COMMAND", "REQ"]

def feedback : Vocabulary :=
  words ["ACK", "FEEDBACK", "_FB", "FB_"] ++ [ending "FB"]
    ++ words ["CONFIRM", "RESPONSE", "REPLY", "DONE", "COMPLETE"]

def sequence : Vocabulary := words ["STEP", "STATE", "PHASE", "SEQ", "STAGE"]

def zone : Vocabulary :=
  words ["ZONE", "CONVEYOR"] ++ [segment "CONV"] ++ words ["STATION", "STN", "LANE"]
    ++ [segment "CELL"] ++ words ["SECTION"]

def analog : Vocabulary :=
  words ["ANALOG"] ++ [starting "AI_"] ++ words ["_AI"] ++ [starting "AO_"]
    ++ words ["_AO", "RAW", "SCALE", "EU_", "_EU", "TEMP", "PRESS", "LEVEL", "FLOW", "SPEED", "RPM",
      "PSI", "PCT", "PERCENT", "SETPOINT"]
    ++ [ending "_SP", ending "_PV"]

def alarm : Vocabulary :=
  words ["ALARM", "ALM", "HORN", "BEACON"]
    ++ [{ glyphs := letters "STACK" ++ .optional ['_'] :: letters "LIGHT" }]
    ++ words ["BUZZER", "ANNUNC", "WARN", "SIREN"]

def mode : Vocabulary :=
  words ["AUTO", "MANUAL", "MAN_"] ++ [ending "_MAN"] ++ words ["MODE", "MAINT", "SEMI", "SETUP"]

def jog : Vocabulary := words ["JOG", "INCH"]

/-- Operator panels. -/
def panel : Vocabulary :=
  words ["HMI", "SCREEN", "DISPLAY", "PANEL", "OIT"] ++ [ending "_IND"] ++ words ["PILOT", "LAMP"]

def optionBit : Vocabulary := words ["OPTION"] ++ [segment "OPT"] ++ words ["CFG", "CONFIG"]

end LadderLogic.Vocabulary
