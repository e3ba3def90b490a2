import LadderLogic.Report
import LadderLogic.Analysis.Text

/-! The command line: what the arguments ask for, and what comes of it. -/
namespace LadderLogic.CommandLine

/-- The options of an analysis as far as they were given. -/
structure Options where
  project : Option String := none
  settings : Option String := none
  json : Bool := false
  pretty : Bool := false
  top : Option Nat := none
  verbose : Bool := false
deriving DecidableEq

/-- What the arguments ask for. -/
inductive Request where
  | analyze (project : String) (o : Options)
  | version
  | help
deriving DecidableEq

inductive Flag where
  | json
  | pretty
  | verbose
deriving DecidableEq

/-- Options that take a value. -/
inductive Setting where
  | settings
  | top
deriving DecidableEq

/-- What an option's name stands for. -/
inductive Meaning where
  | flag (f : Flag)
  | setting (s : Setting)
  | version
  | help
deriving DecidableEq

def ofLong : List (String × Meaning) :=
  [("config", .setting .settings), ("json", .flag .json), ("pretty", .flag .pretty),
   ("top", .setting .top), ("verbose", .flag .verbose), ("version", .version), ("help", .help)]

def ofShort : List (Char × Meaning) :=
  [('c', .setting .settings), ('v', .flag .verbose), ('V', .version), ('h', .help)]

/-- A number of 64 bits, with an optional plus sign. -/
def count? (text : String) : Option Nat :=
  let digits := match text.toList with
    | '+' :: cs => cs
    | cs => cs
  if digits.isEmpty || !digits.all Char.isDigit then none
  else
    let n := Json.digitsValue 0 digits
    if n < UInt64.size then some n else none

namespace Options

/-- A flag may be given once. -/
def setFlag (o : Options) : Flag → Option Options
  | .json => if o.json then none else some { o with json := true }
  | .pretty => if o.pretty then none else some { o with pretty := true }
  | .verbose => if o.verbose then none else some { o with verbose := true }

/-- An option may be given once. A path is not empty, and a row count is a number. -/
def setValue (o : Options) (value : String) : Setting → Option Options
  | .settings =>
    if o.settings.isSome || value.isEmpty then none else some { o with settings := some value }
  | .top => match o.top, count? value with
    | none, some n => some { o with top := some n }
    | _, _ => none

/-- There is one project, and its path is not empty. -/
def setProject (o : Options) (path : String) : Option Options :=
  if o.project.isSome || path.isEmpty then none else some { o with project := some path }

def request (o : Options) : Option Request :=
  o.project.map fun path => .analyze path o

end Options

/-- How far the arguments have been read. -/
inductive State where
  | options (o : Options)
  /-- The next argument is the value of an option. -/
  | value (s : Setting) (o : Options)
  /-- Two dashes have ended the options. -/
  | operands (o : Options)

/-- What one argument leads to. -/
inductive Step where
  | go (s : State)
  | done (r : Request)
  | refused

private def goOn (o : Option Options) : Step :=
  match o with
  | some o => .go (.options o)
  | none => .refused

/-- A long option after its two dashes. A value may follow an equals sign. -/
def longOption (o : Options) (text : List Char) : Step :=
  let name := String.ofList (text.takeWhile (· != '='))
  let value := match text.dropWhile (· != '=') with
    | _ :: cs => some (String.ofList cs)
    | [] => none
  match ofLong.lookup name, value with
  | some (.flag f), none => goOn (o.setFlag f)
  | some (.setting s), some v => goOn (o.setValue v s)
  | some (.setting s), none => .go (.value s o)
  | some .version, none => .done .version
  | some .help, none => .done .help
  | _, _ => .refused

/-- Short options after their dash. One that takes a value takes the rest of the argument, less an equals sign. -/
def shortOptions (o : Options) : List Char → Step
  | [] => .go (.options o)
  | c :: rest =>
    match ofShort.lookup c with
    | some (.flag f) => match o.setFlag f with
      | some o => shortOptions o rest
      | none => .refused
    | some (.setting s) => match rest with
      | [] => .go (.value s o)
      | '=' :: value => goOn (o.setValue (String.ofList value) s)
      | value => goOn (o.setValue (String.ofList value) s)
    | some .version => .done .version
    | some .help => .done .help
    | none => .refused

/-- An argument that is no option: it has no dash in front or is only a dash. -/
def isOperand : List Char → Bool
  | ['-'] => true
  | '-' :: _ => false
  | _ => true

def State.step (argument : String) : State → Step
  | .options o =>
    match argument.toList with
    | ['-', '-'] => .go (.operands o)
    | '-' :: '-' :: text => longOption o text
    | '-' :: c :: text => shortOptions o (c :: text)
    | _ => goOn (o.setProject argument)
  | .value s o => if isOperand argument.toList then goOn (o.setValue argument s) else .refused
  | .operands o =>
    match o.setProject argument with
    | some o => .go (.operands o)
    | none => .refused

/-- What is asked for when the arguments end. -/
def State.request : State → Option Request
  | .options o => o.request
  | .value _ _ => none
  | .operands o => o.request

/-- Reads the arguments from left to right. The first that cannot be read refuses all, unless the version or the help
was asked for before it. -/
def readFrom : State → List String → Option Request
  | s, [] => s.request
  | s, a :: rest =>
    match s.step a with
    | .go s => readFrom s rest
    | .done r => some r
    | .refused => none

def readArguments (arguments : List String) : Option Request :=
  readFrom (.options {}) arguments

/-- What a run leaves behind. -/
structure Outcome where
  exit : UInt8 := 0
  stdout : String := ""
  stderr : String := ""
deriving DecidableEq

/-- How many rows a table has if the option is not given. -/
def defaultRows : Nat := 10

def versionText : String := "ladder-analyzer 0.1.0\n"

def usageText : String := "Usage: ladder-analyzer [OPTIONS] <PROJECT>\n"

private def readFile (files : Files) (path : String) : Except AnalysisError String :=
  (files path).mapError (.unreadable path)

/-- The analysis that is asked for. The settings are read before the project. -/
def analyze (files : Files) (project : String) (o : Options) : Except AnalysisError Analysis := do
  let settings ← match o.settings with
    | none => pure {}
    | some path => Settings.read (← readFile files path)
  let p ← Project.read (← readFile files project)
  return Analysis.ofProject p settings

/-- The output for an analysis. -/
def output (colour : Bool) (o : Options) (a : Analysis) : String :=
  if o.json then (if o.pretty then a.toJson.indented else a.toJson.compact) ++ "\n"
  else Report.text colour (o.top.getD defaultRows) a

def run (files : Files) (colour : Bool) (arguments : List String) : Outcome :=
  match readArguments arguments with
  | none => { exit := 2, stderr := usageText }
  | some .version => { stdout := versionText }
  | some .help => { stdout := usageText }
  | some (.analyze project o) =>
    match analyze files project o with
    | .ok a => { stdout := output colour o a }
    | .error e =>
      { exit := 1, stderr := Report.styled colour .strongAlert 0 "error:" ++ " " ++ e.message ++ "\n" }

end LadderLogic.CommandLine
