/-! Letter case. Opcodes and suffixes know ASCII case only; vocabularies use simple case folding. -/
namespace LadderLogic.Text

/-- ASCII letters in upper case, all else unchanged. -/
def upperChars (cs : List Char) : List Char :=
  cs.map Char.toUpper

def upper (s : String) : String :=
  String.ofList (upperChars s.toList)

/-- The upper-case ASCII letter that a character folds to, or the character itself. Besides the lower-case
letters, the long s and the Kelvin sign fold to an ASCII letter. -/
def fold (c : Char) : Char :=
  if c.toNat == 0x17F then 'S' else if c.toNat == 0x212A then 'K' else c.toUpper

/-- A character that folds to one of `A` to `Z`. -/
def isFoldedLetter (c : Char) : Bool :=
  'A' ≤ fold c && fold c ≤ 'Z'

end LadderLogic.Text
