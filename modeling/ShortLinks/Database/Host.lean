import ShortLinks.Decimal.Text
import ShortLinks.Text.Case
import ShortLinks.Text.Percent

/-!
# Hosts

The machine that runs a server goes by a name or by a number. A number of 32 bits is written as
octets in decimal, with points between them, and one of 128 bits as eight groups of hexadecimal
digits with colons between them, where `::` stands for groups that are zero and the last two groups
can be written like a number of 32 bits.
-/

namespace ShortLinks.Database

/-- The machine that runs a server. -/
inductive Host
  /-- A name, in ASCII. It is empty where a URL names no machine. -/
  | named (name : String)
  /-- A number of 128 bits, by its eight groups. -/
  | numbered (groups : List Nat)
  deriving DecidableEq, Repr

namespace Host

/-- An octet in decimal, without needless zeros. -/
def octet? (s : String) : Option Nat :=
  if s.startsWith "+" || (s.startsWith "0" && s != "0") then none
  else (Decimal.count 256 s).toOption

/-- The four octets of a number of 32 bits. -/
def octets? (s : String) : Option (List Nat) :=
  ((s.splitOn ".").mapM octet?).filter fun octets => octets.length = 4

/-- A group of one to four hexadecimal digits. -/
def group? (s : String) : Option Nat := do
  let digits ← (Text.encode s).mapM Text.hexDigit?
  if digits.isEmpty || 4 < digits.length then none
  else return digits.foldl (fun n d => 16 * n + d.toNat) 0

/-- Groups with colons between them. The last one may stand as four octets. -/
def groups? (mayEndInOctets : Bool) : List String → Option (List Nat)
  | [] => some []
  | [s] =>
    match group? s with
    | some n => some [n]
    | none =>
      match mayEndInOctets, octets? s with
      | true, some [a, b, c, d] => some [256 * a + b, 256 * c + d]
      | _, _ => none
  | s :: rest => do return (← group? s) :: (← groups? mayEndInOctets rest)

/-- The parts of a text between colons. An empty text has none. -/
def parts (s : String) : List String := if s = "" then [] else s.splitOn ":"

/-- The eight groups of a number of 128 bits. -/
def number? (s : String) : Option (List Nat) :=
  match s.splitOn "::" with
  | [all] => (groups? true (parts all)).filter fun groups => groups.length = 8
  | high :: low => do
    let high ← groups? false (parts high)
    let low ← groups? true (parts ("::".intercalate low))
    let missing := 8 - (high.length + low.length)
    if missing = 0 then none else return high ++ List.replicate missing 0 ++ low
  | [] => none

/-- The characters that no name in a URL has. -/
def isForbidden (c : Char) : Bool := "\x00\t\n\r #/:<>?@[\\]^|".toList.contains c

/-- The host that a part of a URL names: a number between brackets, or a name. -/
def read? (cs : List Char) : Option Host :=
  match cs with
  | '[' :: rest =>
    if rest.getLast? = some ']' then (number? (String.ofList rest.dropLast)).map numbered else none
  | cs =>
    if cs.any isForbidden then none
    else some (named (String.ofList ((Text.encode (String.ofList cs)).flatMap fun b =>
      if b < 0x20 || 0x7F ≤ b then Text.percentOctet b else [Char.ofNat b.toNat])))

end Host

end ShortLinks.Database
