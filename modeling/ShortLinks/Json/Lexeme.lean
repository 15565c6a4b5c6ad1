import ShortLinks.Decimal.Text
import ShortLinks.Json.Flaw

/-!
# Lexemes of JSON

The pieces of a JSON text that hold no other value: blanks, words, quoted texts and numbers. A
reader takes its lexeme off the front of a list of characters and gives back the rest.

A quoted text that is wanted is read for its value. One that is not is passed over: each escape is
still looked at, but surrogates need no partner there.
-/

namespace ShortLinks.Json

/-- The four characters that may stand between lexemes. -/
def isSpace (c : Char) : Bool := c == ' ' || c == '\t' || c == '\n' || c == '\r'

/-- Drop the blanks in front. -/
def skipSpace (cs : List Char) : List Char := cs.dropWhile isSpace

/-- Take the characters of a word off the front. -/
def takeWord : List Char → List Char → Except Finding (List Char)
  | [], cs => .ok cs
  | _ :: _, [] => .error (.here .endInValue [])
  | w :: word, c :: cs => if c = w then takeWord word cs else .error (.next .noWord (c :: cs))

/-- Take a word off the front. -/
def dropWord (word : String) (cs : List Char) : Except Finding (List Char) :=
  takeWord word.toList cs

/-- Take a colon off the front. -/
def readColon (cs : List Char) : Except Finding (List Char) :=
  match skipSpace cs with
  | ':' :: rest => .ok rest
  | rest => .error (.missing .endInObject .noColon rest)

/-- Read on behind a comma in a list, which must not close there. -/
def afterComma {α : Type} (read : List Char → Except Finding α) (cs : List Char) :
    Except Finding α :=
  match skipSpace cs with
  | ']' :: rest => .error (.next .trailingComma (']' :: rest))
  | rest => read rest

/-- What is wrong where the name of a further member must come and does not. -/
def noName : List Char → Finding
  | [] => .here .endInValue []
  | '\x7d' :: rest => .next .trailingComma ('\x7d' :: rest)
  | rest => .next .nameNoText rest

/-- The value of a hexadecimal digit. -/
def hexValue? (c : Char) : Option Nat :=
  if '0' ≤ c ∧ c ≤ '9' then some (c.toNat - 48)
  else if 'a' ≤ c ∧ c ≤ 'f' then some (c.toNat - 87)
  else if 'A' ≤ c ∧ c ≤ 'F' then some (c.toNat - 55)
  else none

/-- The number that four hexadecimal digits spell. -/
def hexUnit? (a b c d : Char) : Option Nat := do
  let a ← hexValue? a
  let b ← hexValue? b
  let c ← hexValue? c
  let d ← hexValue? d
  return ((a * 16 + b) * 16 + c) * 16 + d

/-- The character of a one-letter escape. -/
def escapeLetter? (c : Char) : Option Char :=
  if c = '"' then some '"'
  else if c = '\\' then some '\\'
  else if c = '/' then some '/'
  else if c = 'b' then some '\x08'
  else if c = 'f' then some '\x0c'
  else if c = 'n' then some '\n'
  else if c = 'r' then some '\r'
  else if c = 't' then some '\t'
  else none

/-- The first half of a pair. -/
def isHighSurrogate (n : Nat) : Bool := 0xD800 ≤ n && n ≤ 0xDBFF

/-- The second half of a pair. -/
def isLowSurrogate (n : Nat) : Bool := 0xDC00 ≤ n && n ≤ 0xDFFF

/-- What is wrong with a text that does not go on with four hexadecimal digits. All four octets are
looked at before any is found to be no digit. -/
def badUnit (cs : List Char) : Finding :=
  if (String.ofList cs).utf8ByteSize < 4 then .here .endInText []
  else ⟨.malformed .badEscape, cs, 4⟩

/-- What is wrong with a text that does not go on with the second half of a pair. -/
def noPartner : List Char → Finding
  | '\\' :: 'u' :: rest => badUnit rest
  | '\\' :: rest => .missing .endInText .halfPair rest
  | rest => .missing .endInText .halfPair rest

/-- What is wrong with an escape that begins with a letter. -/
def badLetter (c : Char) (rest : List Char) : Finding :=
  if c = 'u' then badUnit rest else .next .badEscape (c :: rest)

/-- Put a character in front of those that were read. -/
def inFront (c : Char) (read : Except Finding (List Char × List Char)) :
    Except Finding (List Char × List Char) :=
  read.map fun (value, rest) => (c :: value, rest)

/-- Read the characters of a quoted text up to its closing quote. Halves of a pair must stand
together. -/
def readBody : List Char → Except Finding (List Char × List Char)
  | [] => .error (.here .endInText [])
  | '"' :: rest => .ok ([], rest)
  | '\\' :: 'u' :: a :: b :: c :: d :: rest =>
    match hexUnit? a b c d with
    | none => .error (badUnit (a :: b :: c :: d :: rest))
    | some unit =>
      if isLowSurrogate unit then .error (.here .loneSurrogate rest)
      else if isHighSurrogate unit then
        match rest with
        | '\\' :: 'u' :: a :: b :: c :: d :: rest =>
          match hexUnit? a b c d with
          | none => .error (badUnit (a :: b :: c :: d :: rest))
          | some low =>
            if isLowSurrogate low then
              inFront (Char.ofNat (0x10000 + (unit - 0xD800) * 0x400 + (low - 0xDC00)))
                (readBody rest)
            else .error (.here .loneSurrogate rest)
        | rest => .error (noPartner rest)
      else inFront (Char.ofNat unit) (readBody rest)
  | '\\' :: c :: rest =>
    match escapeLetter? c with
    | none => .error (badLetter c rest)
    | some letter => inFront letter (readBody rest)
  | c :: rest =>
    if c = '\\' then .error (.here .endInText [])
    else if c.toNat < 0x20 then .error (.next .controlInText (c :: rest))
    else inFront c (readBody rest)

/-- Pass over the characters of a quoted text and its closing quote. -/
def skipBody : List Char → Except Finding (List Char)
  | [] => .error (.here .endInText [])
  | '"' :: rest => .ok rest
  | '\\' :: 'u' :: a :: b :: c :: d :: rest =>
    if (hexUnit? a b c d).isSome then skipBody rest
    else .error (badUnit (a :: b :: c :: d :: rest))
  | '\\' :: c :: rest =>
    if (escapeLetter? c).isSome then skipBody rest else .error (badLetter c rest)
  | c :: rest =>
    if c = '\\' then .error (.here .endInText [])
    else if c.toNat < 0x20 then .error (.here .controlInText (c :: rest))
    else skipBody rest

/-- Read the value of a quoted text, behind its opening quote. -/
def readString (cs : List Char) : Except Finding (String × List Char) :=
  (readBody cs).map fun (value, rest) => (String.ofList value, rest)

/-- A number as written. -/
structure NumberText where
  negative : Bool
  whole : List Char
  fraction : List Char
  exponent : Option (Bool × List Char)
  deriving DecidableEq, Repr

/-- Take the fraction of a number off the front: nothing, or a point and at least one digit. -/
def scanFraction : List Char → Except (List Char) (List Char × List Char)
  | '.' :: rest =>
    let digits := rest.takeWhile Char.isDigit
    if digits.isEmpty then .error rest else .ok (digits, rest.dropWhile Char.isDigit)
  | rest => .ok ([], rest)

/-- Take the exponent of a number off the front: nothing, or a letter, a sign if wanted, and at
least one digit. -/
def scanExponent (cs : List Char) :
    Except (List Char) (Option (Bool × List Char) × List Char) :=
  match cs with
  | c :: rest =>
    if c == 'e' || c == 'E' then
      let (negative, rest) := Decimal.splitSign rest
      let digits := rest.takeWhile Char.isDigit
      if digits.isEmpty then .error rest
      else .ok (some (negative, digits), rest.dropWhile Char.isDigit)
    else .ok (none, cs)
  | [] => .ok (none, [])

/-- Take a number off the front, or give the text in front of which it stops being one. Its whole
part has no needless zero in front. -/
def scanNumber (cs : List Char) : Except (List Char) (NumberText × List Char) := do
  let (negative, cs) := match cs with
    | '-' :: rest => (true, rest)
    | _ => (false, cs)
  let whole := cs.takeWhile Char.isDigit
  if whole.isEmpty then .error cs
  else if whole.head? == some '0' && 1 < whole.length then .error (cs.drop 1)
  else
    let (fraction, rest) ← scanFraction (cs.dropWhile Char.isDigit)
    let (exponent, rest) ← scanExponent rest
    return (⟨negative, whole, fraction, exponent⟩, rest)

/-- What is wrong with a text that begins with no number, given where it stops being one. Where the
number is not wanted, one that is cut short is not told from one that is broken. -/
def badNumber (wanted : Bool) (cs stop : List Char) : Finding :=
  if cs.isEmpty || (wanted && stop.isEmpty) then .here .endInValue []
  else if stop.length = cs.length then .next .noValue cs
  else .next .badNumber stop

/-- The value of a number: whole when it is written so and fits 64 bits, else a float. -/
inductive Numeric
  | int (i : Int)
  | float (x : Float)

/-- Read digits into a 64-bit word for as long as they fit; count those behind. -/
def gather (word : Nat) : List Char → Nat × Nat
  | [] => (word, 0)
  | c :: rest =>
    let next := 10 * word + (c.toNat - '0'.toNat)
    if next < Decimal.twoTo 64 then gather next rest else (word, rest.length + 1)

/-- Divide by a power of ten that may be too large for a float. -/
def scaleDown (x : Float) (power : Nat) : Float :=
  if power ≤ 308 then x / Float.ofScientific 1 false power
  else if x == 0.0 then x
  else scaleDown (x / Float.ofScientific 1 false 308) (power - 308)
termination_by power

/-- The float of a word times a power of ten, by one division or multiplication. A product that is
infinite is out of range. -/
def scale? (word : Nat) (exponent : Int) : Option Float :=
  let x := word.toUInt64.toFloat
  if exponent < 0 then some (scaleDown x exponent.natAbs)
  else if x == 0.0 then some x
  else if 308 < exponent then none
  else
    let y := x * Float.ofScientific 1 false exponent.natAbs
    if y.isInf then none else some y

namespace NumberText

/-- The float of a number, unless it is out of range. The digits that fit a 64-bit word count;
those of the whole part behind them only move the point. -/
def float? (n : NumberText) : Option Float :=
  let (word, behind) := gather 0 n.whole
  let (word, unread) := gather word n.fraction
  let power := (behind : Int) - ((n.fraction.length - unread : Nat) : Int)
  let exponent : Int := match n.exponent with
    | none => 0
    | some (negative, digits) =>
      if negative then -(Decimal.ofDigits digits : Int) else Decimal.ofDigits digits
  (scale? word (power + exponent)).map fun x => if n.negative then -x else x

/-- The value of a number, unless it is out of range. -/
def value? (n : NumberText) : Option Numeric :=
  let size := Decimal.ofDigits n.whole
  if n.fraction.isEmpty && n.exponent.isNone then
    if !n.negative && size < Decimal.twoTo 64 then some (.int size)
    else if n.negative && 0 < size && size ≤ Decimal.twoTo 63 then some (.int (-size))
    else (n.float?).map .float
  else (n.float?).map .float

/-- The digits of an exponent behind the one that takes it out of 32 bits. -/
def beyond (read : Nat) : List Char → List Char
  | [] => []
  | c :: rest =>
    let next := 10 * read + (c.toNat - '0'.toNat)
    if Decimal.twoTo 31 ≤ next then rest else beyond next rest

/-- What was not read of a number when it turned out to be out of range. -/
def unread (n : NumberText) : List Char :=
  match n.exponent with
  | some (false, digits) => beyond 0 digits
  | _ => []

end NumberText

/-- Read a number that is wanted. -/
def readNumber (cs : List Char) : Except Finding (Numeric × List Char) :=
  match scanNumber cs with
  | .error stop => .error (badNumber true cs stop)
  | .ok (number, rest) =>
    match number.value? with
    | none => .error (.here .numberTooLarge (number.unread ++ rest))
    | some n => .ok (n, rest)

/-- Describe the value that a text begins with, for a sentence about its type, and give the text
behind it. What a bracket holds is not looked at. -/
def describe (cs : List Char) : Except Finding (String × List Char) :=
  match cs with
  | 'n' :: _ => (dropWord "null" cs).map ("null", ·)
  | 't' :: _ => (dropWord "true" cs).map ("boolean `true`", ·)
  | 'f' :: _ => (dropWord "false" cs).map ("boolean `false`", ·)
  | '"' :: rest => (readString rest).map fun (s, rest) => ("string " ++ Text.visible s, rest)
  | '[' :: _ => .ok ("sequence", cs)
  | '\x7b' :: _ => .ok ("map", cs)
  | _ => do
    match ← readNumber cs with
    | (.int i, rest) => return ("integer `" ++ toString i ++ "`", rest)
    | (.float x, rest) => return ("floating point `" ++ Decimal.compact x ++ "`", rest)

/-- Refuse a value of the wrong type. -/
def refuse {α : Type} (expected : String) (cs : List Char) : Except Finding α :=
  match describe cs with
  | .ok (found, rest) => .error { flaw := .wrongType found expected, rest }
  | .error finding => .error finding

/-- Read a quoted text where one is expected. -/
def readText (cs : List Char) : Except Finding (String × List Char) :=
  match skipSpace cs with
  | '"' :: rest => readString rest
  | rest => refuse "a string" rest

end ShortLinks.Json
