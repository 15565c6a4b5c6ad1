import ShortLinks.Decimal.Text
import ShortLinks.Json.Lexeme

/-!
# Lexemes of TOML

The pieces of a TOML document that hold no other value: blanks, comments, keys, quoted texts, and
the bare words that stand for numbers, flags and points in time. A reader takes its lexeme off the
front of a list of characters and gives back the rest.
-/

namespace ShortLinks.Toml

/-- A blank within a line. -/
def isBlank (c : Char) : Bool := c == ' ' || c == '\t'

/-- Drop the blanks in front. -/
def skipBlank (cs : List Char) : List Char := cs.dropWhile isBlank

/-- A control character that may not stand in a line as it is. -/
def isControl (c : Char) : Bool := (c.toNat < 0x20 && c != '\t') || c.toNat == 0x7F

/-- Take the end of a line off the front. -/
def newline? : List Char → Option (List Char)
  | '\n' :: rest => some rest
  | '\r' :: '\n' :: rest => some rest
  | _ => none

/-- Drop a comment, if one stands in front, up to the end of its line. -/
def skipComment? (cs : List Char) : Option (List Char) :=
  match cs with
  | '#' :: rest =>
    let rest := rest.dropWhile fun c => !isControl c
    if rest.isEmpty || (newline? rest).isSome then some rest else none
  | _ => some cs

/-- Take blanks, a comment and the end of the line off the front. -/
def lineEnd? (cs : List Char) : Option (List Char) := do
  let rest ← skipComment? (skipBlank cs)
  if rest.isEmpty then some [] else newline? rest

/-- Drop blanks, comments and ends of lines. -/
def skipFiller? : Nat → List Char → Option (List Char)
  | 0, cs => some cs
  | fuel + 1, cs => do
    let rest ← skipComment? (skipBlank cs)
    match newline? rest with
    | some rest => skipFiller? fuel rest
    | none => some rest

/-- The character with a code that is given in hexadecimal. Halves of pairs are none. -/
def scalar? (digits : List Char) : Option Char := do
  let values ← digits.mapM Json.hexValue?
  let code := values.foldl (fun n d => 16 * n + d) 0
  if code < 0xD800 ∨ (0xE000 ≤ code ∧ code < 0x110000) then some (Char.ofNat code) else none

/-- The character of a one-letter escape. -/
def escapeLetter? : Char → Option Char
  | 'b' => some '\x08'
  | 't' => some '\t'
  | 'n' => some '\n'
  | 'f' => some '\x0c'
  | 'r' => some '\r'
  | 'e' => some '\x1b'
  | '"' => some '"'
  | '\\' => some '\\'
  | _ => none

/-- Put a character in front of what was read. -/
def cons (c : Char) (read : List Char × List Char) : List Char × List Char :=
  (c :: read.1, read.2)

/-- Read a quoted text with escapes, behind its quote. -/
def basicString? : List Char → Option (List Char × List Char)
  | [] => none
  | '"' :: rest => some ([], rest)
  | '\\' :: 'x' :: a :: b :: rest => do return cons (← scalar? [a, b]) (← basicString? rest)
  | '\\' :: 'u' :: a :: b :: c :: d :: rest => do
    return cons (← scalar? [a, b, c, d]) (← basicString? rest)
  | '\\' :: 'U' :: a :: b :: c :: d :: e :: f :: g :: h :: rest => do
    return cons (← scalar? [a, b, c, d, e, f, g, h]) (← basicString? rest)
  | '\\' :: c :: rest => do return cons (← escapeLetter? c) (← basicString? rest)
  | c :: rest => if isControl c || c == '\\' then none else (basicString? rest).map (cons c)

/-- Read a quoted text without escapes, behind its quote. -/
def literalString? : List Char → Option (List Char × List Char)
  | [] => none
  | '\x27' :: rest => some ([], rest)
  | c :: rest => if isControl c then none else (literalString? rest).map (cons c)

/-- A backslash in front of these characters joins the line to the next one. -/
def joinsLines (cs : List Char) : Bool := (newline? (skipBlank cs)).isSome

/-- Read a quoted text of several lines with escapes, behind its three quotes. While `joining`,
blanks and ends of lines are dropped. Up to two quotes may stand in front of the last three. -/
def longBasicString? (joining : Bool) : List Char → Option (List Char × List Char)
  | [] => none
  | '"' :: '"' :: '"' :: '"' :: '"' :: rest => some (['"', '"'], rest)
  | '"' :: '"' :: '"' :: '"' :: rest => some (['"'], rest)
  | '"' :: '"' :: '"' :: rest => some ([], rest)
  | '\\' :: 'x' :: a :: b :: rest => do
    return cons (← scalar? [a, b]) (← longBasicString? false rest)
  | '\\' :: 'u' :: a :: b :: c :: d :: rest => do
    return cons (← scalar? [a, b, c, d]) (← longBasicString? false rest)
  | '\\' :: 'U' :: a :: b :: c :: d :: e :: f :: g :: h :: rest => do
    return cons (← scalar? [a, b, c, d, e, f, g, h]) (← longBasicString? false rest)
  | '\\' :: c :: rest =>
    if isBlank c || c == '\n' || c == '\r' then
      if joinsLines (c :: rest) then longBasicString? true rest else none
    else do return cons (← escapeLetter? c) (← longBasicString? false rest)
  | '\r' :: '\n' :: rest =>
    if joining then longBasicString? true rest
    else (longBasicString? false rest).map (cons '\r' ∘ cons '\n')
  | c :: rest =>
    if joining && (isBlank c || c == '\n') then longBasicString? true rest
    else if (isControl c && c != '\n') || c == '\\' then none
    else (longBasicString? false rest).map (cons c)

/-- Read a quoted text of several lines without escapes, behind its three quotes. -/
def longLiteralString? : List Char → Option (List Char × List Char)
  | [] => none
  | '\x27' :: '\x27' :: '\x27' :: '\x27' :: '\x27' :: rest => some (['\x27', '\x27'], rest)
  | '\x27' :: '\x27' :: '\x27' :: '\x27' :: rest => some (['\x27'], rest)
  | '\x27' :: '\x27' :: '\x27' :: rest => some ([], rest)
  | '\r' :: '\n' :: rest => (longLiteralString? rest).map (cons '\r' ∘ cons '\n')
  | c :: rest =>
    if isControl c && c != '\n' then none else (longLiteralString? rest).map (cons c)

/-- Read a quoted text of any kind. The end of a line behind three quotes is no part of it. -/
def quoted? (cs : List Char) : Option (String × List Char) :=
  let text (read : Option (List Char × List Char)) : Option (String × List Char) :=
    read.map fun (body, rest) => (String.ofList body, rest)
  match cs with
  | '"' :: '"' :: '"' :: rest => text (longBasicString? false ((newline? rest).getD rest))
  | '\x27' :: '\x27' :: '\x27' :: rest => text (longLiteralString? ((newline? rest).getD rest))
  | '"' :: rest => text (basicString? rest)
  | '\x27' :: rest => text (literalString? rest)
  | _ => none

/-- A character of a bare key. -/
def isBareKey (c : Char) : Bool := c.isAlphanum || c == '-' || c == '_'

/-- Read one part of a key. -/
def keyPart? (cs : List Char) : Option (String × List Char) :=
  match cs with
  | '"' :: rest => (basicString? rest).map fun (body, rest) => (String.ofList body, rest)
  | '\x27' :: rest => (literalString? rest).map fun (body, rest) => (String.ofList body, rest)
  | _ =>
    let bare := cs.takeWhile isBareKey
    if bare.isEmpty then none else some (String.ofList bare, cs.dropWhile isBareKey)

/-- How deeply values may nest, and how many parts a key may have. -/
def maxDepth : Nat := 80

/-- Read the parts of a key, at most as many as given. -/
def keyParts? : Nat → List Char → Option (List String × List Char)
  | 0, _ => none
  | fuel + 1, cs => do
    let (part, rest) ← keyPart? (skipBlank cs)
    match skipBlank rest with
    | '.' :: rest =>
      let (parts, rest) ← keyParts? fuel rest
      return (part :: parts, rest)
    | rest => return ([part], rest)

/-- Read a key: parts with dots between them. Blanks around it are dropped. -/
def key? (cs : List Char) : Option (List String × List Char) := keyParts? maxDepth cs

/-- A bare word: what stands for a number, a flag or a point in time. -/
inductive Word
  | flag (b : Bool)
  | whole (i : Int)
  | float (x : Float)
  | moment (s : String)

/-- Drop the underscores of a number, each of which stands between two digits. -/
def dropUnderscores? (isDigit : Char → Bool) (cs : List Char) : Option (List Char) :=
  let rec go : List Char → Option (List Char)
    | a :: '_' :: b :: rest =>
      if isDigit a && isDigit b then (go (b :: rest)).map (a :: ·) else none
    | c :: rest => if c == '_' then none else (go rest).map (c :: ·)
    | [] => some []
  go cs

/-- A whole number of 64 bits. -/
def inRange? (i : Int) : Option Word :=
  if -(Decimal.twoTo 63 : Int) ≤ i ∧ i < Decimal.twoTo 63 then some (.whole i) else none

/-- A number in another base, behind the mark of the base. -/
def based? (base : Nat) (cs : List Char) : Option Word := do
  let isDigit (c : Char) : Bool := (Json.hexValue? c).any fun d => d < base
  let digits ← dropUnderscores? isDigit cs
  if digits.isEmpty || !digits.all isDigit then none
  else inRange? (digits.foldl (fun n c => base * n + (Json.hexValue? c).getD 0) 0)

/-- No needless zero stands in front. -/
def isCounted (digits : List Char) : Bool :=
  !digits.isEmpty && (digits.length = 1 || digits.head? != some '0')

/-- A decimal number. One with a point or an exponent has to be finite. -/
def decimal? (cs : List Char) : Option Word := do
  let cs ← dropUnderscores? Char.isDigit cs
  let (negative, size) := Decimal.splitSign cs
  let whole := size.takeWhile Char.isDigit
  let rest := size.dropWhile Char.isDigit
  if !isCounted whole then none
  else if rest.isEmpty then
    inRange? (if negative then -(Decimal.ofDigits whole : Int) else Decimal.ofDigits whole)
  else
    let isWritten := match rest with
      | '.' :: more => (more.head?.map Char.isDigit).getD false
      | _ => true
    if !isWritten then none
    else ((Decimal.read? (String.ofList cs)).filter Float.isFinite).map .float

/-- A number written as a word, or as digits in base ten. -/
def number? (cs : List Char) : Option Word :=
  let (negative, size) := Decimal.splitSign cs
  match String.ofList size with
  | "inf" => some (.float (if negative then -1.0 / 0.0 else 1.0 / 0.0))
  | "nan" => some (.float (0.0 / 0.0))
  | _ => decimal? cs

/-- The number that two digits spell, if it is in a range. -/
def pair? (low high : Nat) (a b : Char) : Option Nat :=
  let n := 10 * (a.toNat - 48) + (b.toNat - 48)
  if a.isDigit && b.isDigit && low ≤ n && n ≤ high then some n else none

/-- How many days a month has. -/
def daysIn (year month : Nat) : Nat :=
  if month = 2 then
    if (year % 4 = 0 ∧ year % 100 ≠ 0) ∨ year % 400 = 0 then 29 else 28
  else if month = 4 ∨ month = 6 ∨ month = 9 ∨ month = 11 then 30 else 31

/-- Take a date off the front. -/
def date? : List Char → Option (List Char × List Char)
  | a :: b :: c :: d :: '-' :: e :: f :: '-' :: g :: h :: rest => do
    let century ← pair? 0 99 a b
    let year ← pair? 0 99 c d
    let month ← pair? 1 12 e f
    let _ ← pair? 1 (daysIn (100 * century + year) month) g h
    return ([a, b, c, d, '-', e, f, '-', g, h], rest)
  | _ => none

/-- Take a fraction of a second off the front. Nine digits of it count, without the zeros at their
end; one zero stands where nothing else is left. -/
def fraction? : List Char → Option (List Char × List Char)
  | '.' :: rest =>
    let digits := rest.takeWhile Char.isDigit
    if digits.isEmpty then none
    else
      let kept := ((digits.take 9).reverse.dropWhile (· == '0')).reverse
      some ('.' :: if kept.isEmpty then ['0'] else kept, rest.dropWhile Char.isDigit)
  | rest => some ([], rest)

/-- Take a time of day off the front. Seconds may be left out. -/
def time? : List Char → Option (List Char × List Char)
  | a :: b :: ':' :: c :: d :: rest => do
    let _ ← pair? 0 23 a b
    let _ ← pair? 0 59 c d
    match rest with
    | ':' :: e :: f :: rest =>
      let _ ← pair? 0 60 e f
      let (fraction, rest) ← fraction? rest
      return ([a, b, ':', c, d, ':', e, f] ++ fraction, rest)
    | rest => return ([a, b, ':', c, d], rest)
  | _ => none

/-- The offset from the time of the meridian, to the end of a word. -/
def offset? : List Char → Option (List Char)
  | [] => some []
  | [c] => if c == 'Z' || c == 'z' then some ['Z'] else none
  | [sign, a, b, ':', c, d] => do
    let hours ← pair? 0 23 a b
    let minutes ← pair? 0 59 c d
    if sign == '+' || (sign == '-' && hours + minutes = 0) then some ['+', a, b, ':', c, d]
    else if sign == '-' then some [sign, a, b, ':', c, d]
    else none
  | _ => none

/-- A point in time in its usual spelling. -/
def moment? (cs : List Char) : Option Word :=
  let read : Option (List Char) := match date? cs with
    | some (date, []) => some date
    | some (date, mark :: rest) => do
      if mark != 'T' && mark != 't' && mark != ' ' then none
      let (time, rest) ← time? rest
      return date ++ 'T' :: time ++ (← offset? rest)
    | none => do
      let (time, rest) ← time? cs
      if rest.isEmpty then some time else none
  read.map fun cs => .moment (String.ofList cs)

/-- A character of a bare word. -/
def isWordChar (c : Char) : Bool :=
  c.isAlphanum || c == '_' || c == '+' || c == '-' || c == '.' || c == ':'

/-- Split off a bare word. A date and the time behind one blank are one word. -/
def splitWord (cs : List Char) : List Char × List Char :=
  let word := cs.takeWhile isWordChar
  match cs.dropWhile isWordChar with
  | ' ' :: d :: rest =>
    if (date? word).any (fun r => r.2.isEmpty) && d.isDigit then
      (word ++ ' ' :: (d :: rest).takeWhile isWordChar, (d :: rest).dropWhile isWordChar)
    else (word, ' ' :: d :: rest)
  | rest => (word, rest)

/-- Read a bare word. -/
def word? (cs : List Char) : Option (Word × List Char) :=
  let (word, rest) := splitWord cs
  let value : Option Word := match word with
    | ['t', 'r', 'u', 'e'] => some (.flag true)
    | ['f', 'a', 'l', 's', 'e'] => some (.flag false)
    | '0' :: 'x' :: digits => based? 16 digits
    | '0' :: 'o' :: digits => based? 8 digits
    | '0' :: 'b' :: digits => based? 2 digits
    | word => (number? word).or (moment? word)
  value.map fun v => (v, rest)

end ShortLinks.Toml
