import LadderLogic.CommandLine

/-! The command line against the analysis of texts. Both read the same two texts, in opposite orders, so that
they differ only in the error for two invalid texts. -/
namespace LadderLogic

/-- The text of an object that has a message in it and nothing else. -/
def errorObject (message : String) : String :=
  (Json.object [("error", .string message)]).compact

def IsErrorObject (text : String) : Prop :=
  ∃ message, text = errorObject message

theorem Json.exists_compactChars_object_cons (key : String) {c : Char} {cs : List Char}
    (h : quotedChars key = '"' :: c :: cs) (v : Json) (members : List (String × Json)) :
    ∃ rest, (Json.object ((key, v) :: members)).compactChars = '\x7b' :: '"' :: c :: rest := by
  rw [compactChars, compactMembers, h]
  exact ⟨_, rfl⟩

/-- The first member of an analysis has another name than an error. -/
theorem Analysis.not_isErrorObject_compact (a : Analysis) : ¬IsErrorObject a.toJson.compact := by
  rintro ⟨message, h⟩
  have hchars := congrArg String.toList h
  rw [errorObject, Json.compact, Json.compact, String.toList_ofList, String.toList_ofList] at hchars
  obtain ⟨rest, hanalysis⟩ := Json.exists_compactChars_object_cons "tagUsage" rfl
    (a.tagUsage.toJson TagUsage.toJson) [("patterns", .array (a.patterns.map Pattern.toJson)),
      ("rungContexts", a.contexts.toJson Context.toJson), ("summary", a.summary.toJson)]
  obtain ⟨rest', herror⟩ := Json.exists_compactChars_object_cons "error" rfl (.string message) []
  rw [Analysis.toJson, hanalysis, herror] at hchars
  have hletter := congrArg (·[2]?) hchars
  cases hletter

namespace CommandLine

/-- The argument names a file, and the file holds the text. -/
structure Readable (files : Files) (path text : String) : Prop where
  isOperand : isOperand path.toList
  nonempty : path ≠ ""
  content : files path = .ok text

/-- The message stands on the error output. -/
def Outcome.Reports (colour : Bool) (o : Outcome) (message : String) : Prop :=
  o.stderr = Report.styled colour .strongAlert 0 "error:" ++ " " ++ message ++ "\n"

/-- The run prints the text and a line break, unless the text is an error. Then it fails and prints nothing. -/
structure Outcome.Shows (o : Outcome) (text : String) : Prop where
  exit_eq_zero_iff : o.exit = 0 ↔ ¬IsErrorObject text
  stdout_eq : o.exit = 0 → o.stdout = text ++ "\n"
  failure : o.exit ≠ 0 → o.exit = 1 ∧ o.stdout = ""

/-- The outcome of a run against the analysis of the texts of a project and its settings. -/
structure Agreement (colour : Bool) (o : Outcome) (project settings : String) : Prop where
  shows_textOf : o.Shows (Analysis.textOf project settings)
  project_invalid : ∀ e s, Project.ofText project = .error e → Settings.ofText settings = .ok s →
    o.Reports colour (AnalysisError.invalidProject e).message ∧
      Analysis.textOf project settings = errorObject (AnalysisError.invalidProject e).message
  settings_invalid : ∀ e p, Settings.ofText settings = .error e → Project.ofText project = .ok p →
    o.Reports colour (AnalysisError.invalidSettings e).message ∧
      Analysis.textOf project settings = errorObject (AnalysisError.invalidSettings e).message
  both_invalid : ∀ e e', Project.ofText project = .error e → Settings.ofText settings = .error e' →
    o.Reports colour (AnalysisError.invalidSettings e').message ∧
      Analysis.textOf project settings = errorObject (AnalysisError.invalidProject e).message

theorem readFrom_of_step {s s' : State} {argument : String} (h : s.step argument = .go s')
    (rest : List String) : readFrom s (argument :: rest) = readFrom s' rest := by
  rw [readFrom, h]

section Readable

variable {files : Files} {path text : String} (h : Readable files path text) {o : Options}
include h

theorem Readable.step_options (ho : o.project = none) :
    (State.options o).step path = .go (.options { o with project := some path }) := by
  have hset : o.setProject path = some { o with project := some path } := by
    simp [Options.setProject, ho, h.nonempty]
  have hdash := h.isOperand
  simp only [State.step]
  split
  · next heq => rw [heq] at hdash; cases hdash
  · next heq => rw [heq] at hdash; cases hdash
  · next heq => rw [heq] at hdash; cases hdash
  · rw [hset]
    rfl

theorem Readable.step_value (ho : o.settings = none) :
    (State.value .settings o).step path = .go (.options { o with settings := some path }) := by
  have hset : o.setValue path .settings = some { o with settings := some path } := by
    simp [Options.setValue, ho, h.nonempty]
  rw [State.step, if_pos h.isOperand, hset]
  rfl

theorem Readable.readArguments_project :
    readArguments [path, "--json"] = some (.analyze path { project := some path, json := true }) := by
  rw [readArguments, readFrom_of_step (h.step_options rfl)]
  rfl

theorem Readable.readArguments_settings {path' text' : String} (h' : Readable files path' text') :
    readArguments [path, "--config", path', "--json"] =
      some (.analyze path { project := some path, settings := some path', json := true }) := by
  have hconfig : (State.options { project := some path }).step "--config" =
      .go (.value .settings { project := some path }) := rfl
  rw [readArguments, readFrom_of_step (h.step_options rfl), readFrom_of_step hconfig,
    readFrom_of_step (h'.step_value rfl)]
  rfl

end Readable

/-- What a run for JSON leaves behind. -/
def Outcome.ofAnalysis (colour : Bool) : Except AnalysisError Analysis → Outcome
  | .ok a => { stdout := a.toJson.compact ++ "\n" }
  | .error e =>
    { exit := 1, stderr := Report.styled colour .strongAlert 0 "error:" ++ " " ++ e.message ++ "\n" }

/-- The analysis of two texts, the settings first. -/
def ofTextsSettingsFirst (project settings : String) : Except AnalysisError Analysis := do
  let s ← Settings.read settings
  let p ← Project.read project
  return Analysis.ofProject p s

theorem run_of_readArguments {arguments : List String} {project : String} {o : Options} (files : Files)
    (colour : Bool) (h : readArguments arguments = some (.analyze project o)) (hjson : o.json = true)
    (hpretty : o.pretty = false) : run files colour arguments = .ofAnalysis colour (analyze files project o) := by
  rw [run, h]
  cases hresult : analyze files project o with
  | ok a => simp [hresult, Outcome.ofAnalysis, output, hjson, hpretty]
  | error e => simp [hresult, Outcome.ofAnalysis]

section Readable

variable {files : Files} {project text : String} (h : Readable files project text) {o : Options}
include h

theorem Readable.analyze_project (ho : o.settings = none) :
    analyze files project o = ofTextsSettingsFirst text "" := by
  have hblank : Settings.read "" = .ok {} := rfl
  have hread : analyze files project o =
      ((files project).mapError (.unreadable project)).bind fun text =>
        (Project.read text).bind fun p => .ok (Analysis.ofProject p {}) := by
    unfold analyze
    rw [ho]
    rfl
  rw [hread, h.content, ofTextsSettingsFirst, hblank]
  rfl

theorem Readable.analyze_settings {settings text' : String} (h' : Readable files settings text')
    (ho : o.settings = some settings) : analyze files project o = ofTextsSettingsFirst text text' := by
  have hread : analyze files project o =
      ((files settings).mapError (.unreadable settings)).bind fun text' =>
        (Settings.read text').bind fun s => ((files project).mapError (.unreadable project)).bind fun text =>
          (Project.read text).bind fun p => .ok (Analysis.ofProject p s) := by
    unfold analyze
    rw [ho]
    rfl
  rw [hread, h.content, h'.content]
  rfl

end Readable

theorem shows_ofAnalysis_ok (colour : Bool) (a : Analysis) :
    (Outcome.ofAnalysis colour (.ok a)).Shows a.toJson.compact where
  exit_eq_zero_iff := ⟨fun _ => a.not_isErrorObject_compact, fun _ => rfl⟩
  stdout_eq := fun _ => rfl
  failure := fun h => absurd rfl h

theorem shows_ofAnalysis_error (colour : Bool) (e : AnalysisError) (message : String) :
    (Outcome.ofAnalysis colour (.error e)).Shows (errorObject message) where
  exit_eq_zero_iff := ⟨fun h => absurd h (by decide : (1 : UInt8) ≠ 0), fun h => absurd ⟨message, rfl⟩ h⟩
  stdout_eq := fun h => absurd h (by decide : (1 : UInt8) ≠ 0)
  failure := fun _ => ⟨rfl, rfl⟩

/-- The two orders of reading differ only in the error when both texts are invalid. -/
theorem agreement_ofAnalysis (colour : Bool) (project settings : String) :
    Agreement colour (.ofAnalysis colour (ofTextsSettingsFirst project settings)) project settings := by
  cases hp : Project.ofText project with
  | ok p =>
    cases hs : Settings.ofText settings with
    | ok s =>
      have hrun : ofTextsSettingsFirst project settings = .ok (.ofProject p s) := by
        rw [ofTextsSettingsFirst, Project.read, Settings.read, hp, hs]; rfl
      have htext : Analysis.textOf project settings = (Analysis.ofProject p s).toJson.compact := by
        rw [Analysis.textOf, Analysis.ofTexts, Project.read, Settings.read, hp, hs]; rfl
      rw [hrun]
      exact ⟨htext ▸ shows_ofAnalysis_ok colour _, by simp [hp], by simp [hs], by simp [hp]⟩
    | error e =>
      have hrun : ofTextsSettingsFirst project settings = .error (.invalidSettings e) := by
        rw [ofTextsSettingsFirst, Settings.read, hs]; rfl
      have htext : Analysis.textOf project settings = errorObject (AnalysisError.invalidSettings e).message := by
        rw [Analysis.textOf, Analysis.ofTexts, Project.read, Settings.read, hp, hs]; rfl
      rw [hrun]
      refine ⟨htext ▸ shows_ofAnalysis_error colour _ _, by simp [hp], ?_, by simp [hp]⟩
      intro e' p' he' _
      cases hs.symm.trans he'
      exact ⟨rfl, htext⟩
  | error e =>
    have htext : Analysis.textOf project settings = errorObject (AnalysisError.invalidProject e).message := by
      rw [Analysis.textOf, Analysis.ofTexts, Project.read, hp]; rfl
    cases hs : Settings.ofText settings with
    | ok s =>
      have hrun : ofTextsSettingsFirst project settings = .error (.invalidProject e) := by
        rw [ofTextsSettingsFirst, Project.read, Settings.read, hp, hs]; rfl
      rw [hrun]
      refine ⟨htext ▸ shows_ofAnalysis_error colour _ _, ?_, by simp [hs], by simp [hs]⟩
      intro e' s' he' _
      cases hp.symm.trans he'
      exact ⟨rfl, htext⟩
    | error e' =>
      have hrun : ofTextsSettingsFirst project settings = .error (.invalidSettings e') := by
        rw [ofTextsSettingsFirst, Settings.read, hs]; rfl
      rw [hrun]
      refine ⟨htext ▸ shows_ofAnalysis_error colour _ _, by simp [hs], by simp [hp], ?_⟩
      intro f f' hf hf'
      cases hp.symm.trans hf
      cases hs.symm.trans hf'
      exact ⟨rfl, htext⟩

/-- A run for JSON and the analysis of the texts in its files agree, with settings and without. -/
theorem agreement_run {files : Files} {project settings projectText settingsText : String}
    (h : Readable files project projectText) (h' : Readable files settings settingsText) (colour : Bool) :
    Agreement colour (run files colour [project, "--config", settings, "--json"]) projectText settingsText ∧
      Agreement colour (run files colour [project, "--json"]) projectText "" := by
  constructor
  · rw [run_of_readArguments files colour (h.readArguments_settings h') rfl rfl, h.analyze_settings h' rfl]
    exact agreement_ofAnalysis colour projectText settingsText
  · rw [run_of_readArguments files colour h.readArguments_project rfl rfl, h.analyze_project rfl]
    exact agreement_ofAnalysis colour projectText ""

theorem agreement_run_both_invalid :
    let files : Files := fun path => if path = "project" then .ok "" else .ok " ["
    (Readable files "project" "" ∧ Readable files "settings" " [") ∧
      (run files false ["project", "--config", "settings", "--json"]).Reports false
        "invalid config JSON: EOF while parsing a list" ∧
      Analysis.textOf "" " [" = errorObject "invalid project JSON: EOF while parsing a value" := by
  intro files
  have h : Readable files "project" "" := ⟨by decide, by decide, rfl⟩
  have h' : Readable files "settings" " [" := ⟨by decide, by decide, rfl⟩
  have hproject : Project.ofText "" = .error (.fault .endInValue) := rfl
  have hsettings : Settings.ofText " [" = .error (.fault .endInArray) := by
    rw [Settings.ofText, if_neg (by decide), Json.readText, Text.trim, String.toList_ofList]
    rfl
  have hlist : (AnalysisError.invalidSettings (.fault .endInArray)).message =
      "invalid config JSON: EOF while parsing a list" := by decide +kernel
  have hvalue : (AnalysisError.invalidProject (.fault .endInValue)).message =
      "invalid project JSON: EOF while parsing a value" := by decide +kernel
  rw [← hlist, ← hvalue]
  exact ⟨⟨h, h'⟩, (agreement_run h h' false).1.both_invalid _ _ hproject hsettings⟩

end CommandLine

end LadderLogic
