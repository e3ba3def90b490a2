/-! Lists of names in running text. -/
namespace LadderLogic.Text

/-- The texts one after another with `separator` between them. -/
def joined (separator : String) : List String → String
  | [] => ""
  | [s] => s
  | s :: rest => s ++ separator ++ joined separator rest

/-- The names with commas between them; beyond `most` names, the first `most` and how many more there are. -/
def listing (names : List String) (most : Nat) : String :=
  if names.length ≤ most then joined ", " names
  else joined ", " (names.take most) ++ " and " ++ toString (names.length - most) ++ " more"

end LadderLogic.Text
