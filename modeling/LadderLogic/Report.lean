import LadderLogic.Analysis.Basic

/-! The analysis as a report for the terminal. -/
namespace LadderLogic

/-- How a piece of text looks. -/
inductive Style where
  | heading
  | alert
  | strongAlert
  | notice
  | good
  | term
deriving DecidableEq

namespace Style

def escape : Char := Char.ofNat 0x1B

/-- The codes of a style: bold and underline, then the colour. -/
def codes : Style → String
  | .heading => "1;4"
  | .alert => "31"
  | .strongAlert => "1;31"
  | .notice => "33"
  | .good => "32"
  | .term => "36"

def start (s : Style) : List Char :=
  escape :: '[' :: (s.codes.toList ++ ['m'])

def reset : List Char :=
  [escape, '[', '0', 'm']

/-- Starts the style again after each reset within the text. -/
def resumed (s : Style) : List Char → List Char
  | e :: '[' :: '0' :: 'm' :: rest =>
    if e == escape then reset ++ s.start ++ s.resumed rest
    else e :: '[' :: '0' :: 'm' :: s.resumed rest
  | c :: rest => c :: s.resumed rest
  | [] => []

end Style

/-- Blanks up to a width in characters. -/
def padded (width : Nat) (cs : List Char) : List Char :=
  cs ++ List.replicate (width - cs.length) ' '

namespace Report

/-- A text in a style, its padding included. Without colours there is only the padding. -/
def styled (colour : Bool) (s : Style) (width : Nat) (text : String) : String :=
  String.ofList (if colour then s.start ++ padded width (s.resumed text.toList) ++ Style.reset
    else padded width text.toList)

def plain (width : Nat) (text : String) : String :=
  String.ofList (padded width text.toList)

def figures (colour : Bool) (s : Summary) : List String :=
  [styled colour .heading 0 "Summary",
   "  rungs " ++ toString s.totalRungs
     ++ "  safety " ++ styled colour .alert 0 (toString s.safetyRungs)
     ++ "  motor " ++ toString s.motorControlRungs
     ++ "  timer " ++ toString s.timerRungs
     ++ "  counter " ++ toString s.counterRungs,
   "  tags " ++ toString s.totalTags ++ "  unreferenced " ++ toString s.unreferencedTags]

/-- A heading after an empty line, and the rows under it. -/
def table (colour : Bool) (heading : String) (rows : List String) : List String :=
  "" :: styled colour .heading 0 heading :: rows

def patternRow (colour : Bool) (e : PatternKind × Nat) : String :=
  "  " ++ styled colour .term 22 e.1.name ++ " " ++ toString e.2

def keyTagRow (colour : Bool) (t : KeyTag) : String :=
  "  " ++ styled colour .notice 28 t.name ++ " " ++ plain 10 t.role.name
    ++ " r" ++ toString t.readers ++ " w" ++ toString t.writers

/-- The line of a rung, and a line for each concern. -/
def rungRows (colour : Bool) (key : String) (c : Context) : List String :=
  let name := if c.safetyRelevant then styled colour .strongAlert 28 key else plain 28 key
  ("  " ++ name ++ " " ++ styled colour .good 18 c.category.name ++ " " ++ c.purpose)
    :: c.concerns.map fun concern => "    " ++ styled colour .notice 0 "review:" ++ " " ++ concern

/-- The lines of a report. Tables of patterns and tags have `top` rows at most and are left out if they are empty. -/
def lines (colour : Bool) (top : Nat) (a : Analysis) : List String :=
  let s := a.summary
  figures colour s
    ++ (if s.patternCounts.isEmpty then []
      else table colour "Patterns" ((s.patternCounts.take top).map (patternRow colour)))
    ++ (if s.keyTags.isEmpty then []
      else table colour "Key tags" ((s.keyTags.take top).map (keyTagRow colour)))
    ++ table colour "Rungs" (a.contexts.entries.flatMap fun (key, c) => rungRows colour key c)

def text (colour : Bool) (top : Nat) (a : Analysis) : String :=
  String.join ((lines colour top a).map (· ++ "\n"))

end Report

end LadderLogic
