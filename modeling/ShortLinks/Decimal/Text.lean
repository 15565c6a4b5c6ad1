import ShortLinks.Decimal.Shortest

/-!
# Floats as text, and back

Two ways to write the shortest decimal of a float: `positional` never uses an exponent, and
`compact` uses one where the point would stand far from the digits. `read?` reads a decimal with
an optional exponent and rounds it once, to the nearest float.
-/

namespace ShortLinks.Decimal

/-- Digits with a point, which stands `exponent` places from their end. -/
def place (digits : String) (exponent : Int) : String :=
  if 0 ≤ exponent then digits ++ "".pushn '0' exponent.toNat
  else
    let places := (-exponent).toNat
    if places < digits.length then
      String.ofList (digits.toList.take (digits.length - places)) ++ "." ++
        String.ofList (digits.toList.drop (digits.length - places))
    else "0." ++ "".pushn '0' (places - digits.length) ++ digits

/-- The sign of a number that is written with one only when it is negative. -/
def signText (negative : Bool) : String := if negative then "-" else ""

/-- Write a float without exponent and without a point where none is needed. -/
def positional (x : Float) : String :=
  match shortest? x with
  | some d => signText d.negative ++ place (toString d.digits) d.exponent
  | none => if x.isNaN then "NaN" else if x > 0 then "inf" else "-inf"

/-- Write a finite float with a point or an exponent. The exponent form is for numbers below
`10 ^ -5` and from `10 ^ 16` on. -/
def compact (x : Float) : String :=
  match shortest? x with
  | none => if x.isNaN then "NaN" else if x > 0 then "inf" else "-inf"
  | some d =>
    let digits := toString d.digits
    let point := (digits.length : Int) + d.exponent
    if d.digits = 0 then signText d.negative ++ "0.0"
    else if -5 < point && point ≤ 16 then
      signText d.negative ++ place digits d.exponent ++ if 0 ≤ d.exponent then ".0" else ""
    else
      let tail := String.ofList (digits.toList.drop 1)
      signText d.negative ++ String.ofList (digits.toList.take 1) ++
        (if tail = "" then "" else "." ++ tail) ++ "e" ++
        (if 0 < point then "+" else "-") ++ toString (point - 1).natAbs

/-- The number that decimal digits spell. -/
def ofDigits (digits : List Char) : Nat :=
  digits.foldl (fun n c => 10 * n + (c.toNat - '0'.toNat)) 0

/-- Why a text is no count. -/
inductive CountFlaw
  | nothing
  | badDigit
  | tooLarge
  deriving DecidableEq, Repr

/-- The text of a flaw. -/
def CountFlaw.text : CountFlaw → String
  | nothing => "cannot parse integer from empty string"
  | badDigit => "invalid digit found in string"
  | tooLarge => "number too large to fit in target type"

/-- Read digits behind a number, which stays below a bound. The flaw that comes first counts. -/
def countFrom (bound n : Nat) : List Char → Except CountFlaw Nat
  | [] => .ok n
  | c :: rest =>
    let next := 10 * n + (c.toNat - '0'.toNat)
    if !c.isDigit then .error .badDigit
    else if bound ≤ next then .error .tooLarge
    else countFrom bound next rest

/-- Read a number below a bound, with or without a plus sign. -/
def count (bound : Nat) (s : String) : Except CountFlaw Nat :=
  match s.toList with
  | [] => .error .nothing
  | ['+'] => .error .badDigit
  | '+' :: digits => countFrom bound 0 digits
  | digits => countFrom bound 0 digits

/-- The float nearest to `digits · 10 ^ exponent`. -/
def toFloat (digits : Nat) (exponent : Int) : Float :=
  let magnitude := ((Nat.toDigits 10 digits).length : Int) + exponent
  if digits = 0 then 0.0
  else if 320 < magnitude then 1.0 / 0.0
  else if magnitude < -340 then 0.0
  else Float.ofScientific digits (decide (exponent < 0)) exponent.natAbs

/-- A sign in front of a number, if there is one, and the rest. -/
def splitSign : List Char → Bool × List Char
  | '-' :: rest => (true, rest)
  | '+' :: rest => (false, rest)
  | rest => (false, rest)

/-- The exponent part of a number: nothing, or a letter, a sign and at least one digit. -/
def readExponent? : List Char → Option Int
  | [] => some 0
  | c :: rest =>
    let (negative, digits) := splitSign rest
    if (c == 'e' || c == 'E') && !digits.isEmpty && digits.all Char.isDigit then
      some (if negative then -(ofDigits digits : Int) else ofDigits digits)
    else none

/-- Read digits with an optional point and an optional exponent; a digit must stand before the
exponent. -/
def readUnsigned? (cs : List Char) : Option Float :=
  let whole := cs.takeWhile Char.isDigit
  let rest := cs.dropWhile Char.isDigit
  let fraction := match rest with
    | '.' :: more => more.takeWhile Char.isDigit
    | _ => []
  let rest := match rest with
    | '.' :: more => more.dropWhile Char.isDigit
    | _ => rest
  if whole.isEmpty && fraction.isEmpty then none
  else
    (readExponent? rest).map fun exponent =>
      toFloat (ofDigits (whole ++ fraction)) (exponent - (fraction.length : Int))

/-- Read a float: a sign, then digits, or one of the words `inf`, `infinity` and `nan` in any
case. -/
def read? (s : String) : Option Float :=
  let (negative, rest) := splitSign s.toList
  let word := String.ofList (rest.map Char.toLower)
  let size :=
    if word = "inf" ∨ word = "infinity" then some (1.0 / 0.0)
    else if word = "nan" then some (0.0 / 0.0)
    else readUnsigned? rest
  size.map fun x => if negative then -x else x

/-- Read a whole number: a sign, then at least one digit, and nothing else. -/
def readInt? (s : String) : Option Int :=
  let (negative, digits) := splitSign s.toList
  if digits.isEmpty || !digits.all Char.isDigit then none
  else some (if negative then -(ofDigits digits : Int) else ofDigits digits)

end ShortLinks.Decimal
