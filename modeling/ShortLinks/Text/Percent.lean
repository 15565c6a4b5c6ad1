import ShortLinks.Text.Bytes

/-!
# Percent encoding

In a URL an octet can be written as a percent sign and two hexadecimal digits. In the part behind
the question mark, names and values stand in pairs, and a plus sign means a space.
-/

namespace ShortLinks.Text

/-- The value of an octet that is a hexadecimal digit. -/
def hexDigit? (b : UInt8) : Option UInt8 :=
  if 48 ≤ b ∧ b ≤ 57 then some (b - 48)
  else if 97 ≤ b ∧ b ≤ 102 then some (b - 87)
  else if 65 ≤ b ∧ b ≤ 70 then some (b - 55)
  else none

/-- Replace each percent sign that two hexadecimal digits follow by the octet they mean. -/
def percentDecode : Bytes → Bytes
  | 37 :: a :: b :: rest =>
    match hexDigit? a, hexDigit? b with
    | some high, some low => (high * 16 + low) :: percentDecode rest
    | _, _ => 37 :: percentDecode (a :: b :: rest)
  | b :: rest => b :: percentDecode rest
  | [] => []

/-- The hexadecimal digit of a number below 16, in capitals. -/
def hexCapital (n : Nat) : Char := Char.ofNat (if n < 10 then 48 + n else 55 + n)

/-- A letter or a digit of ASCII. -/
def isAlphanumeric (b : UInt8) : Bool := b < 0x80 && (Char.ofNat b.toNat).isAlphanum

/-- An octet as a percent sign and two digits. -/
def percentOctet (b : UInt8) : List Char :=
  ['%', hexCapital (b.toNat / 16), hexCapital (b.toNat % 16)]

/-- Write a text with letters and digits of ASCII only, and every other octet in percent form. -/
def percentEncode (s : String) : String :=
  String.ofList ((encode s).flatMap fun b =>
    if isAlphanumeric b then [Char.ofNat b.toNat] else percentOctet b)

/-- The characters besides letters and digits that stand for themselves in a query. -/
def queryMarks : List UInt8 := [42, 45, 46, 95]

/-- Write a name or a value of a query. A plus sign means a space. -/
def encodeQueryWord (s : String) : String :=
  String.ofList ((encode s).flatMap fun b =>
    if b = 32 then ['+']
    else if isAlphanumeric b || queryMarks.contains b then [Char.ofNat b.toNat]
    else percentOctet b)

/-- A name or a value of a query. -/
def queryWord (s : String) : String :=
  decodeLossy (percentDecode ((encode s).map fun b => if b = 43 then 32 else b))

/-- Split a text at the first occurrence of a character; without one, all of it comes first. -/
def splitFirst (c : Char) (cs : List Char) : List Char × Option (List Char) :=
  match cs.dropWhile (· != c) with
  | [] => (cs, none)
  | _ :: rest => (cs.takeWhile (· != c), some rest)

/-- The names and values of a query. -/
def queryPairs (query : String) : List (String × String) :=
  (((query.toList.splitOn '&').map String.ofList).filter (· != "")).map fun pair =>
    let (name, value) := splitFirst '=' pair.toList
    (queryWord (String.ofList name), queryWord (String.ofList (value.getD [])))

/-- Say where octets stop being UTF-8. -/
def flawOf (start : Nat) : List (Bytes × Bool) → Option String
  | [] => none
  | (piece, true) :: rest => flawOf (start + piece.length) rest
  | (piece, false) :: rest =>
    let owed := (piece.head?.bind continuation?).map fun c => c.1
    if rest.isEmpty && owed.isSome then
      some ("incomplete utf-8 byte sequence from index " ++ toString start)
    else
      some ("invalid utf-8 sequence of " ++ toString piece.length ++ " bytes from index " ++
        toString start)

/-- The text that octets spell, or what is wrong with them. -/
def decodeOrExplain (bytes : Bytes) : Except String String :=
  match decode? bytes with
  | some s => .ok s
  | none => .error ((flawOf 0 (pieces bytes)).getD "invalid utf-8 sequence")

end ShortLinks.Text
