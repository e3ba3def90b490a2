/-! The files that a run may read: each path has a content, or a reason why there is none. -/
namespace LadderLogic

/-- Why a file cannot be read. -/
inductive FileError where
  | notFound
  | notPermitted
  /-- The path goes on after a file. -/
  | notDirectory
  | isDirectory
  | nameTooLong
  | notText
  /-- Any other reason, in the words of the system. -/
  | other (details : String)
deriving DecidableEq

/-- The reason with the system's number for it. -/
def FileError.message : FileError → String
  | .notFound => "No such file or directory (os error 2)"
  | .notPermitted => "Permission denied (os error 13)"
  | .notDirectory => "Not a directory (os error 20)"
  | .isDirectory => "Is a directory (os error 21)"
  | .nameTooLong => "File name too long (os error 36)"
  | .notText => "stream did not contain valid UTF-8"
  | .other details => details

/-- What a run finds at each path. -/
abbrev Files := String → Except FileError String

end LadderLogic
