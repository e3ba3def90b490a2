import LadderLogic.Json.Document

/-! Reading a JSON text into a document. -/
namespace LadderLogic.Json

def isSpace (c : Char) : Bool :=
  c == ' ' || c == '\t' || c == '\n' || c == '\r'

def skipSpace (cs : List Char) : List Char :=
  cs.dropWhile isSpace

def digitValue (c : Char) : Nat :=
  c.toNat - '0'.toNat

def hexValue? (c : Char) : Option Nat :=
  if '0' ≤ c ∧ c ≤ '9' then some (c.toNat - '0'.toNat)
  else if 'a' ≤ c ∧ c ≤ 'f' then some (c.toNat - 'a'.toNat + 10)
  else if 'A' ≤ c ∧ c ≤ 'F' then some (c.toNat - 'A'.toNat + 10)
  else none

def hexQuad? (a b c d : Char) : Option Nat := do
  return ((← hexValue? a) * 16 + (← hexValue? b)) * 256 + ((← hexValue? c) * 16 + (← hexValue? d))

/-- The character of an escape other than `u`. -/
def simpleEscape? (c : Char) : Option Char :=
  if c == '"' || c == '\\' || c == '/' then some c
  else if c == 'b' then some (Char.ofNat 0x8)
  else if c == 'f' then some (Char.ofNat 0xC)
  else if c == 'n' then some '\n'
  else if c == 'r' then some '\r'
  else if c == 't' then some '\t'
  else none

/-- Four hexadecimal digits are missing: the text ends within four bytes, or other characters stand there. -/
def shortQuad (cs : List Char) : Fault :=
  if cs.foldl (fun n c => n + c.utf8Size) 0 < 4 then .endInString else .invalidEscape

def isHighSurrogate (n : Nat) : Bool := 0xD800 ≤ n && n ≤ 0xDBFF

def isLowSurrogate (n : Nat) : Bool := 0xDC00 ≤ n && n ≤ 0xDFFF

def prepend (c : Char) (r : Except Fault (List Char × List Char)) :
    Except Fault (List Char × List Char) :=
  r.map fun (cs, rest) => (c :: cs, rest)

/-- The characters of a string after its opening quote, and the text after its closing quote. -/
def readString : List Char → Except Fault (List Char × List Char)
  | [] => .error .endInString
  | c :: rest =>
    if c == '"' then .ok ([], rest)
    else if c == '\\' then
      match rest with
      | [] => .error .endInString
      | 'u' :: a :: b :: c :: d :: rest =>
        match hexQuad? a b c d with
        | none => .error .invalidEscape
        | some n =>
          if isLowSurrogate n then .error .loneSurrogate
          else if isHighSurrogate n then
            match rest with
            | [] => .error .endInString
            | '\\' :: 'u' :: a :: b :: c :: d :: rest =>
              match hexQuad? a b c d with
              | none => .error .invalidEscape
              | some low =>
                if isLowSurrogate low then
                  prepend (Char.ofNat (0x10000 + (n - 0xD800) * 0x400 + (low - 0xDC00)))
                    (readString rest)
                else .error .loneSurrogate
            | '\\' :: 'u' :: rest => .error (shortQuad rest)
            | '\\' :: [] => .error .endInString
            | _ => .error .hexEscapeEnds
          else prepend (Char.ofNat n) (readString rest)
      | 'u' :: rest => .error (shortQuad rest)
      | e :: rest =>
        match simpleEscape? e with
        | some c => prepend c (readString rest)
        | none => .error .invalidEscape
    else if c.toNat < 0x20 then .error .controlCharacter
    else prepend c (readString rest)

/-- The text after the closing quote of a string whose opening quote has been read. -/
def skipString : List Char → Except Fault (List Char)
  | [] => .error .endInString
  | c :: rest =>
    if c == '"' then .ok rest
    else if c == '\\' then
      match rest with
      | [] => .error .endInString
      | 'u' :: a :: b :: c :: d :: rest =>
        if (hexQuad? a b c d).isSome then skipString rest else .error .invalidEscape
      | 'u' :: rest => .error (shortQuad rest)
      | e :: rest => if (simpleEscape? e).isSome then skipString rest else .error .invalidEscape
    else if c.toNat < 0x20 then .error .controlCharacter
    else skipString rest

/-- A string after its opening quote: its content, and the text after it. If it never closes, the faults found in
reading and in skipping it. -/
def scanString (cs : List Char) : Except (Fault × Fault) (Except Fault String × List Char) :=
  let content := (readString cs).map fun (s, _) => String.ofList s
  match skipString cs, content with
  | .ok rest, _ => .ok (content, rest)
  | .error skipping, .error reading => .error (reading, skipping)
  | .error skipping, .ok _ => .error (skipping, skipping)

/-- The parts of a number as it is written. -/
structure Numeral where
  negative : Bool
  whole : List Char
  fraction : List Char := []
  /-- Sign and digits. -/
  exponent : Option (Bool × List Char) := none

/-- Digits for as long as the number they make fits 64 bits, and the digits after them. -/
def significand (n : Nat) : List Char → Nat × List Char
  | [] => (n, [])
  | c :: rest =>
    if n * 10 + digitValue c < UInt64.size then significand (n * 10 + digitValue c) rest else (n, c :: rest)

def digitsValue (n : Nat) : List Char → Nat
  | [] => n
  | c :: rest => digitsValue (n * 10 + digitValue c) rest

/-- A number without point and exponent is an integer if it fits 64 bits and is no negative zero. All others are
binary64, from as many digits as fit 64 bits. -/
def Numeral.value (x : Numeral) : Except Fault Number :=
  let (n, overflow) := significand 0 x.whole
  let isInteger := x.fraction.isEmpty && x.exponent.isNone && overflow.isEmpty
  if isInteger && !x.negative then .ok (.natural n)
  else if isInteger && n != 0 && n ≤ UInt64.size / 2 then .ok (.negative n)
  else
    let (m, dropped) := significand n x.fraction
    let tens : Int := overflow.length - (x.fraction.length - dropped.length : Nat)
    let tens := match x.exponent with
      | none => tens
      | some (true, ds) => tens - digitsValue 0 ds
      | some (false, ds) => tens + digitsValue 0 ds
    match Binary64.ofDecimal x.negative m tens with
    | some r => .ok (.real r)
    | none => .error .numberOutOfRange

/-- Digits are missing: the faults in reading and in skipping. -/
private def noDigits (cs : List Char) : Fault × Fault :=
  (if cs.isEmpty then .endInValue else .invalidNumber, .invalidNumber)

def scanExponent (x : Numeral) : List Char → Except (Fault × Fault) (Numeral × List Char)
  | c :: rest =>
    if c == 'e' || c == 'E' then
      let (minus, cs) := match rest with
        | '-' :: cs => (true, cs)
        | '+' :: cs => (false, cs)
        | cs => (false, cs)
      let ds := cs.takeWhile Char.isDigit
      if ds.isEmpty then .error (noDigits cs)
      else .ok ({ x with exponent := some (minus, ds) }, cs.dropWhile Char.isDigit)
    else .ok (x, c :: rest)
  | [] => .ok (x, [])

def scanFraction (x : Numeral) : List Char → Except (Fault × Fault) (Numeral × List Char)
  | '.' :: cs =>
    let ds := cs.takeWhile Char.isDigit
    if ds.isEmpty then .error (noDigits cs)
    else scanExponent { x with fraction := ds } (cs.dropWhile Char.isDigit)
  | cs => scanExponent x cs

/-- A number, its sign already read. A zero is the only digit before the point. -/
def scanNumeral (negative : Bool) (cs : List Char) : Except (Fault × Fault) (Numeral × List Char) :=
  match cs with
  | '0' :: rest =>
    if (rest.head?.map Char.isDigit).getD false then .error (.invalidNumber, .invalidNumber)
    else scanFraction ⟨negative, ['0'], [], none⟩ rest
  | _ =>
    let ds := cs.takeWhile Char.isDigit
    if ds.isEmpty then .error (noDigits cs)
    else scanFraction ⟨negative, ds, [], none⟩ (cs.dropWhile Char.isDigit)

/-- The rest of a word such as `true` after its first letter. -/
def scanWord : List Char → List Char → Except Fault (List Char)
  | [], cs => .ok cs
  | _ :: _, [] => .error .endInValue
  | w :: ws, c :: cs => if c == w then scanWord ws cs else .error .expectedWord

def word (letters : List Char) (d : Document) (cs : List Char) : Document × Option (List Char) :=
  match scanWord letters cs with
  | .ok rest => (d, some rest)
  | .error f => (.broken f f, none)

def numeral (negative : Bool) (cs : List Char) : Document × Option (List Char) :=
  match scanNumeral negative cs with
  | .ok (x, rest) => (.number x.value, some rest)
  | .error (reading, skipping) => (.broken reading skipping, none)

mutual

/-- A value and the text after it; no text is left after a fault. A character costs at most three units of fuel. -/
def readValue : Nat → List Char → Document × Option (List Char)
  | 0, _ => (.broken .endInValue .endInValue, none)
  | fuel + 1, cs =>
    match skipSpace cs with
    | [] => (.broken .endInValue .endInValue, none)
    | '[' :: rest =>
      let (items, rest) := readItems fuel true rest
      (.array items, rest)
    | '\x7b' :: rest =>
      let (members, rest) := readMembers fuel true rest
      (.object members, rest)
    | '"' :: rest =>
      match scanString rest with
      | .ok (content, rest) => (.string content, some rest)
      | .error (reading, skipping) => (.broken reading skipping, none)
    | 'n' :: rest => word ['u', 'l', 'l'] .null rest
    | 't' :: rest => word ['r', 'u', 'e'] (.bool true) rest
    | 'f' :: rest => word ['a', 'l', 's', 'e'] (.bool false) rest
    | '-' :: rest => numeral true rest
    | c :: rest =>
      if c.isDigit then numeral false (c :: rest) else (.broken .expectedValue .expectedValue, none)

/-- The items after an opening bracket, or after an item if not `first`. -/
def readItems : Nat → (first : Bool) → List Char → Items × Option (List Char)
  | 0, _, _ => (.stop .cut, none)
  | fuel + 1, first, cs =>
    match skipSpace cs with
    | [] => (.stop .cut, none)
    | ']' :: rest => (.stop .closed, some rest)
    | c :: rest =>
      if first then readItem fuel (c :: rest)
      else if c == ',' then
        match skipSpace rest with
        | [] => (.stop .cutAfterComma, none)
        | ']' :: _ => (.stop .danglingComma, none)
        | rest => readItem fuel rest
      else (.stop .junk, none)

def readItem : Nat → List Char → Items × Option (List Char)
  | 0, _ => (.stop .cut, none)
  | fuel + 1, cs =>
    match readValue fuel cs with
    | (value, none) => (.item value (.stop .closed), none)
    | (value, some rest) =>
      let (items, rest) := readItems fuel false rest
      (.item value items, rest)

/-- The members after an opening brace, or after a member if not `first`. -/
def readMembers : Nat → (first : Bool) → List Char → Members × Option (List Char)
  | 0, _, _ => (.stop .cut, none)
  | fuel + 1, first, cs =>
    match skipSpace cs with
    | [] => (.stop .cut, none)
    | '\x7d' :: rest => (.stop .closed, some rest)
    | c :: rest =>
      if first then readMember fuel (c :: rest)
      else if c == ',' then
        match skipSpace rest with
        | [] => (.stop .cutAfterComma, none)
        | '\x7d' :: _ => (.stop .danglingComma, none)
        | rest => readMember fuel rest
      else (.stop .junk, none)

def readMember : Nat → List Char → Members × Option (List Char)
  | 0, _ => (.stop .cut, none)
  | fuel + 1, cs =>
    match cs with
    | '"' :: rest =>
      match scanString rest with
      | .error (reading, skipping) => (.stop (.brokenKey reading skipping), none)
      | .ok (key, rest) =>
        match skipSpace rest with
        | ':' :: rest =>
          match readValue fuel rest with
          | (value, none) => (.member key value (.stop .closed), none)
          | (value, some rest) =>
            let (members, rest) := readMembers fuel false rest
            (.member key value members, rest)
        | [] => (.member key (.broken .endInObject .endInObject) (.stop .closed), none)
        | _ => (.member key (.broken .expectedColon .expectedColon) (.stop .closed), none)
    | _ => (.stop .noKey, none)

end

/-- The document of a text, and the text after it. -/
def Document.read (cs : List Char) : Document × Option (List Char) :=
  readValue (3 * cs.length + 3) cs

end LadderLogic.Json
