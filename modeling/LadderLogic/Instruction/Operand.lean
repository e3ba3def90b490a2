import LadderLogic.Text.Blank
import LadderLogic.Text.Digit

/-! What an operand is: a number, a quoted text, a placeholder or the name of a tag. -/
namespace LadderLogic.Operand

open Text (isDecimalDigit)

def dropSign : List Char → List Char
  | '+' :: cs => cs
  | '-' :: cs => cs
  | cs => cs

/-- Nothing, or `e`, an optional sign and digits. -/
def isExponent : List Char → Bool
  | [] => true
  | c :: cs => (c == 'e' || c == 'E') && !(dropSign cs).isEmpty && (dropSign cs).all isDecimalDigit

/-- Digits with an optional point after or between them, or a point and digits, then an optional exponent. -/
def isUnsigned (cs : List Char) : Bool :=
  if (cs.takeWhile isDecimalDigit).isEmpty then
    match cs with
    | '.' :: fraction =>
      !(fraction.takeWhile isDecimalDigit).isEmpty && isExponent (fraction.dropWhile isDecimalDigit)
    | _ => false
  else
    match cs.dropWhile isDecimalDigit with
    | '.' :: fraction => isExponent (fraction.dropWhile isDecimalDigit)
    | rest => isExponent rest

def isNumericChars (cs : List Char) : Bool :=
  isUnsigned (dropSign cs)

/-- An integer, a decimal fraction or a number in scientific notation, with blanks around it or not. -/
def isNumeric (s : String) : Bool :=
  isNumericChars (Text.trimChars s.toList)

/-- Everything names a tag but a blank, a number, a quoted text and the placeholder `?`. -/
def isTagChars (cs : List Char) : Bool :=
  match cs with
  | [] => false
  | ['?'] => false
  | '\'' :: _ => false
  | '"' :: _ => false
  | _ => !isNumericChars cs

def isTag (s : String) : Bool :=
  isTagChars (Text.trimChars s.toList)

end LadderLogic.Operand
