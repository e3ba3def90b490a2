import LadderLogic.Text.Unprintable

/-! Texts as messages quote them: in double quotes, with escapes for what cannot be shown. -/
namespace LadderLogic.Text

/-- Lower-case hexadecimal digits, at least one. -/
def hexDigits (n : Nat) : String :=
  String.ofList (Nat.toDigits 16 n)

def quotedChar (c : Char) : String :=
  if c.toNat == 0 then "\\0"
  else if c == '\t' then "\\t"
  else if c == '\r' then "\\r"
  else if c == '\n' then "\\n"
  else if c == '\\' then "\\\\"
  else if c == '"' then "\\\""
  else if isUnprintable c then "\\u\x7b" ++ hexDigits c.toNat ++ "\x7d"
  else String.singleton c

def quoted (s : String) : String :=
  "\"" ++ s.toList.foldr (fun c rest => quotedChar c ++ rest) "" ++ "\""

end LadderLogic.Text
