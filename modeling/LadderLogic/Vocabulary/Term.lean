import LadderLogic.Text.Letter
import LadderLogic.Text.Digit

/-! Terms and vocabularies. A term is a row of glyphs to be found in a name, between two edges that say what may
stand before and after it. A vocabulary recognizes a name if one of its terms occurs in it. -/
namespace LadderLogic

namespace Vocabulary

inductive Glyph where
  /-- This character, a letter in either case. -/
  | char (c : Char)
  /-- This character only. -/
  | exactly (c : Char)
  /-- One of these characters, letters in either case. -/
  | oneOf (cs : List Char)
  /-- One of these characters or nothing. -/
  | optional (cs : List Char)
  /-- One or more decimal digits, as many as there are. -/
  | digits
deriving DecidableEq

namespace Glyph

/-- The characters left after the glyph, if it stands in front. -/
def take? : Glyph → List Char → Option (List Char)
  | .char g, c :: cs => if Text.fold c == g then some cs else none
  | .exactly g, c :: cs => if c == g then some cs else none
  | .oneOf gs, c :: cs => if gs.contains (Text.fold c) then some cs else none
  | .optional gs, c :: cs => if gs.contains c then some cs else some (c :: cs)
  | .optional _, [] => some []
  | .digits, c :: cs => if Text.isDecimalDigit c then some (cs.dropWhile Text.isDecimalDigit) else none
  | _, [] => none

/-- The characters left after a row of glyphs. -/
def takeAll? : List Glyph → List Char → Option (List Char)
  | [], cs => some cs
  | g :: gs, cs => (g.take? cs).bind (takeAll? gs)

end Glyph

/-- What may stand before a term. -/
inductive LeftEdge where
  | anything
  /-- Only the start of the name. -/
  | start
  /-- The start, an underscore or a point. -/
  | segment
  /-- The start or anything but a letter. -/
  | noLetter
  /-- The start or anything but this letter. -/
  | notLetter (c : Char)
deriving DecidableEq

def LeftEdge.admits : LeftEdge → Option Char → Bool
  | .anything, _ => true
  | _, none => true
  | .start, some _ => false
  | .segment, some c => c == '_' || c == '.'
  | .noLetter, some c => !Text.isFoldedLetter c
  | .notLetter l, some c => Text.fold c != l

/-- What may stand after a term. -/
inductive RightEdge where
  | anything
  /-- Only the end of the name. -/
  | finish
  /-- The end, an underscore, a point or an ASCII digit. -/
  | segment
deriving DecidableEq

def RightEdge.admits : RightEdge → Option Char → Bool
  | .anything, _ => true
  | _, none => true
  | .finish, some _ => false
  | .segment, some c => c == '_' || c == '.' || c.isDigit

structure Term where
  left : LeftEdge := .anything
  glyphs : List Glyph
  right : RightEdge := .anything
deriving DecidableEq

namespace Term

/-- The term stands at the front of `cs`, which follows the character `before`. -/
def standsAt (t : Term) (before : Option Char) (cs : List Char) : Bool :=
  t.left.admits before && (match Glyph.takeAll? t.glyphs cs with
    | some rest => t.right.admits rest.head?
    | none => false)

/-- The term stands at the front of `cs` or later. -/
def occursFrom (t : Term) (before : Option Char) : List Char → Bool
  | [] => t.standsAt before []
  | c :: cs => t.standsAt before (c :: cs) || t.occursFrom (some c) cs

/-- The term stands somewhere in the characters. -/
def occursIn (t : Term) (cs : List Char) : Bool :=
  t.occursFrom none cs

/-- The letters of an upper-case word. -/
def letters (word : String) : List Glyph :=
  word.toList.map .char

/-- A word anywhere in a name. -/
def word (w : String) : Term := { glyphs := letters w }

/-- A word that a name starts with. -/
def starting (w : String) : Term := { left := .start, glyphs := letters w }

/-- A word that a name ends in. -/
def ending (w : String) : Term := { glyphs := letters w, right := .finish }

/-- A word of its own between underscores, points and digits. -/
def segment (w : String) : Term := { left := .segment, glyphs := letters w, right := .segment }

end Term

end Vocabulary

abbrev Vocabulary := List Vocabulary.Term

namespace Vocabulary

def words (ws : List String) : Vocabulary := ws.map Term.word

/-- One of the terms occurs in the name. -/
def recognizes (v : Vocabulary) (name : String) : Bool :=
  v.any fun t => t.occursIn name.toList

/-- The names that the vocabulary recognizes, once each and in order. -/
def select (v : Vocabulary) (names : List String) : List String :=
  (names.filter v.recognizes).eraseDups

end Vocabulary

end LadderLogic
