import LadderLogic.Analysis.Json
import LadderLogic.File

/-! From the texts of a project and its settings to the text of the analysis. -/
namespace LadderLogic

/-- Why there is no analysis. -/
inductive AnalysisError where
  | invalidProject (e : Json.ReadError)
  | invalidSettings (e : Json.ReadError)
  | unreadable (path : String) (e : FileError)
deriving DecidableEq

/-- Which text or file is at fault, and why. What is wrong with a text is told without its line and column. -/
def AnalysisError.message : AnalysisError → String
  | .invalidProject e => "invalid project JSON: " ++ e.message
  | .invalidSettings e => "invalid config JSON: " ++ e.message
  | .unreadable path e => "failed to read " ++ path ++ ": " ++ e.message

def Project.read (text : String) : Except AnalysisError Project :=
  (Project.ofText text).mapError .invalidProject

def Settings.read (text : String) : Except AnalysisError Settings :=
  (Settings.ofText text).mapError .invalidSettings

/-- The analysis of a project. Its text is read before that of the settings. -/
def Analysis.ofTexts (project settings : String) : Except AnalysisError Analysis := do
  let p ← Project.read project
  let s ← Settings.read settings
  return Analysis.ofProject p s

/-- The analysis as JSON text, or an object with the error. -/
def Analysis.textOf (project settings : String) : String :=
  match ofTexts project settings with
  | .ok a => a.toJson.compact
  | .error e => (Json.object [("error", .string e.message)]).compact

end LadderLogic
