import LadderLogic.CommandLine

/-! The program: reads the files, runs the command line, writes what comes of it. -/
namespace LadderLogic.CommandLine

/-- The number of a system error. Some calls report its negative. -/
def systemNumber (code : UInt32) : UInt32 :=
  if code < 0x80000000 then code else 0 - code

/-- What the system says about a file that cannot be read. -/
def reasonOf : IO.Error → FileError
  | .noFileOrDirectory _ _ _ => .notFound
  | .permissionDenied _ _ _ => .notPermitted
  | .inappropriateType _ code _ => if systemNumber code = 21 then .isDirectory else .notDirectory
  | .invalidArgument _ code details => if systemNumber code = 36 then .nameTooLong else .other details
  | .userError _ => .notText
  | e => .other (toString e)

/-- Reads the files at the given paths. -/
def readFiles (paths : List String) : IO Files := do
  let contents ← paths.mapM fun (path : String) => do
    let content ← (IO.FS.readFile path).toBaseIO
    return (path, content.mapError reasonOf)
  return fun path => (contents.lookup path).getD (.error .notFound)

/-- The files that a request needs. -/
def Request.paths : Request → List String
  | .analyze project o => o.settings.toList ++ [project]
  | _ => []

/-- Colours are forced, refused, or used on a terminal. -/
def wantsColour : IO Bool := do
  match ← IO.getEnv "CLICOLOR_FORCE", ← IO.getEnv "NO_COLOR" with
  | some v, refused => if v != "0" then return true else if refused.isSome then return false else terminal
  | none, some _ => return false
  | none, none => terminal
where
  terminal : IO Bool := do (← IO.getStdout).isTty

end LadderLogic.CommandLine

open LadderLogic CommandLine in
def main (arguments : List String) : IO UInt32 := do
  let paths := ((readArguments arguments).map Request.paths).getD []
  let outcome := run (← readFiles paths) (← wantsColour) arguments
  IO.print outcome.stdout
  IO.eprint outcome.stderr
  return outcome.exit.toUInt32
