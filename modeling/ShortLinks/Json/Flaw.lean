import ShortLinks.Decimal.Text
import ShortLinks.Text.Bytes
import ShortLinks.Text.Visible

/-!
# What can be wrong with a JSON text

A text that is not JSON holds a mistake, and the first one is reported. A text that is JSON can have
the wrong shape for what is read from it, and the flaw names the place in the shape. A flaw in the
shape is reported where the text shows it first, so a wrong type comes before a field that is
missing further on. What a flaw says about a whole shows behind the end of that whole.

Readers go through a text from its front. Each flaw comes with what was not read when it showed, so
that its place in the whole text can be told: the line, and how many octets of the line were read.
-/

namespace ShortLinks.Json

/-- What keeps a text from being JSON. -/
inductive Mistake
  | endInList
  | endInObject
  | endInText
  | endInValue
  | noColon
  | noListComma
  | noObjectComma
  | noWord
  | noValue
  | badEscape
  | badNumber
  | numberTooLarge
  | controlInText
  | nameNoText
  | trailingComma
  | trailingText
  | loneSurrogate
  | halfPair
  | tooDeep
  deriving DecidableEq, Repr

/-- The sentence that describes a mistake. -/
def Mistake.sentence : Mistake → String
  | endInList => "EOF while parsing a list"
  | endInObject => "EOF while parsing an object"
  | endInText => "EOF while parsing a string"
  | endInValue => "EOF while parsing a value"
  | noColon => "expected `:`"
  | noListComma => "expected `,` or `]`"
  | noObjectComma => "expected `,` or `\x7d`"
  | noWord => "expected ident"
  | noValue => "expected value"
  | badEscape => "invalid escape"
  | badNumber => "invalid number"
  | numberTooLarge => "number out of range"
  | controlInText => "control character (\\u0000-\\u001F) found while parsing a string"
  | nameNoText => "key must be a string"
  | trailingComma => "trailing comma"
  | trailingText => "trailing characters"
  | loneSurrogate => "lone leading surrogate in hex escape"
  | halfPair => "unexpected end of hex escape"
  | tooDeep => "recursion limit exceeded"

/-- A flaw of a text from which a value of known shape is read. -/
inductive Flaw
  | malformed (mistake : Mistake)
  | wrongType (found expected : String)
  | missingField (name : String)
  | duplicateField (name : String)
  | wrongLength (length : Nat) (expected : String)
  | unknownFlag (text : String)
  | noAlternative
  deriving DecidableEq, Repr

/-- A position such as ` at line 3 column 7` at the end of a sentence, with the sentence without it.
Both numbers fit 64 bits. -/
def splitPosition? (sentence : String) : Option (String × Nat × Nat) :=
  let reversed := sentence.toList.reverse
  let column := reversed.takeWhile Char.isDigit
  let rest := reversed.dropWhile Char.isDigit
  let columnMark := " column ".toList.reverse
  let lineMark := " at line ".toList.reverse
  if column.isEmpty || !columnMark.isPrefixOf rest then none
  else
    let rest := rest.drop columnMark.length
    let line := rest.takeWhile Char.isDigit
    let rest := rest.dropWhile Char.isDigit
    if line.isEmpty || !lineMark.isPrefixOf rest then none
    else
      let line := Decimal.ofDigits line.reverse
      let column := Decimal.ofDigits column.reverse
      if line < Decimal.twoTo 64 && column < Decimal.twoTo 64 then
        some (String.ofList (rest.drop lineMark.length).reverse, line, column)
      else none

/-- The sentence about a text that stands for no flag. -/
def unknownFlagSentence (text : String) : String := "invalid is_deleted value: " ++ text

namespace Flaw

/-- The sentence that describes a flaw. -/
def sentence : Flaw → String
  | malformed mistake => mistake.sentence
  | wrongType found expected => "invalid type: " ++ found ++ ", expected " ++ expected
  | missingField name => "missing field `" ++ name ++ "`"
  | duplicateField name => "duplicate field `" ++ name ++ "`"
  | wrongLength length expected => "invalid length " ++ toString length ++ ", expected " ++ expected
  | unknownFlag text =>
    let sentence := unknownFlagSentence text
    ((splitPosition? sentence).map Prod.fst).getD sentence
  | noAlternative => "data did not match any variant of untagged enum Raw"

/-- The position that the sentence of a flaw ends in: words of the text itself that look like a
position are taken for one. There is no line 0. -/
def position? : Flaw → Option (Nat × Nat)
  | unknownFlag text =>
    ((splitPosition? (unknownFlagSentence text)).map Prod.snd).filter fun (line, _) => line != 0
  | _ => none

/-- The text is JSON, and has the wrong shape. -/
def isOfShape : Flaw → Bool
  | malformed _ => false
  | _ => true

/-- The flaw is one of a whole object or array, or of the meaning of a value in it. It shows when
the reader is done with the whole. -/
def isLate : Flaw → Bool
  | missingField _ | duplicateField _ | wrongLength _ _ | unknownFlag _ | noAlternative => true
  | malformed _ | wrongType _ _ => false

end Flaw

/-- A flaw as it is reported, with its place in the text. -/
structure Report where
  flaw : Flaw
  line : Nat
  column : Nat
  deriving DecidableEq, Repr

/-- The sentence for a flaw, with its place. -/
def Report.sentence (r : Report) : String :=
  r.flaw.sentence ++ " at line " ++ toString r.line ++ " column " ++ toString r.column

/-- A flaw, the text that was not read when it showed, and how many octets of that were looked at
already. -/
structure Finding where
  flaw : Flaw
  rest : List Char := []
  ahead : Nat := 0
  deriving DecidableEq, Repr

namespace Finding

/-- A mistake that shows in front of the rest of a text. -/
def here (mistake : Mistake) (rest : List Char) : Finding := ⟨.malformed mistake, rest, 0⟩

/-- A mistake that the next octet of a text shows. -/
def next (mistake : Mistake) (rest : List Char) : Finding := ⟨.malformed mistake, rest, 1⟩

/-- Something else stands where a mark must come, or the text is at its end. -/
def missing (atEnd other : Mistake) (rest : List Char) : Finding :=
  if rest.isEmpty then here atEnd rest else next other rest

/-- What a reader would say that runs out of fuel. -/
def spent : Finding := here .tooDeep []

/-- Let a late flaw show when the reader has closed the whole. -/
def settle (close : List Char → List Char) (f : Finding) : Finding :=
  if f.flaw.isLate then { f with rest := close f.rest } else f

/-- How many octets of a text were read when the flaw showed. -/
def offset (whole : List Char) (f : Finding) : Nat :=
  let size := (String.ofList whole).utf8ByteSize
  min size (size - (String.ofList f.rest).utf8ByteSize + f.ahead)

/-- The line that ends a part of a text, from 1 on, and how many octets of it the part has. -/
def place (read : Bytes) : Nat × Nat :=
  (read.count 10 + 1, (read.reverse.takeWhile (· != 10)).length)

/-- The report about a flaw in a text. -/
def report (whole : List Char) (f : Finding) : Report :=
  let (line, column) := f.flaw.position?.getD
    (place ((Text.encode (String.ofList whole)).take (f.offset whole)))
  ⟨f.flaw, line, column⟩

end Finding

end ShortLinks.Json
