import ShortLinks.Decimal.Text
import ShortLinks.Keyed
import ShortLinks.Text.Case

/-!
# Values of settings

Settings come from several sources as trees of values. Trees are laid over each other: tables are
joined entry by entry, and anything else replaces what was there. A key of a source may spell a path
into the tree. A value need not be of the kind that is asked for: numbers, flags and texts stand for
each other where one can be read as the other.
-/

namespace ShortLinks.Settings

/-- A value that a source gives. -/
inductive Value
  | null
  | flag (b : Bool)
  | whole (i : Int)
  | float (x : Float)
  | text (s : String)
  | list (items : List Value)
  | table (entries : List (String × Value))

/-- A value is not what is asked for. -/
inductive Refusal
  | notText
  | notFlag
  | notCount
  | notChoice
  | notSection
  deriving DecidableEq, Repr

namespace Value

/-- The entries of a table; of anything else, none. -/
def entries : Value → List (String × Value)
  | table es => es
  | _ => []

/-- The items of a list; of anything else, none. -/
def items : Value → List Value
  | list vs => vs
  | _ => []

/-- The entry of a table with a name; where there is none, nothing. -/
def entry (name : String) (v : Value) : Value := (lookup? name v.entries).getD null

/-- A table with one entry changed. What is no table becomes one. -/
def setEntry (v : Value) (name : String) (entry : Value) : Value :=
  table (assign name entry v.entries)

/-- Lay a value over another: tables are joined entry by entry, and anything else replaces what was
there. -/
def lay : Value → Value → Value
  | table es, below => layAll es (table below.entries)
  | value, _ => value
where
  /-- Lay entries over a table. -/
  layAll : List (String × Value) → Value → Value
    | [], below => below
    | (name, value) :: rest, below => layAll rest (below.setEntry name (lay value (below.entry name)))

/-- A step from a value to one inside it: an entry of a table, or an item of a list, counted from
its end when the number is negative. -/
inductive Step
  | entry (name : String)
  | item (index : Int)
  deriving DecidableEq, Repr

/-- Items with nothing put in where an index lies outside them, and the index among them. -/
def reach (index : Int) (vs : List Value) : List Value × Nat :=
  let n := index.natAbs
  if 0 ≤ index then (vs ++ List.replicate (n + 1 - vs.length) null, n)
  else if n ≤ vs.length then (vs, vs.length - n)
  else (List.replicate (n - vs.length) null ++ vs, 0)

/-- Change the value at the end of a path. What is no table or no list on the way becomes one. -/
def changeAt (change : Value → Value) : List Step → Value → Value
  | [], v => change v
  | .entry name :: rest, v => v.setEntry name (changeAt change rest (v.entry name))
  | .item index :: rest, v =>
    let (vs, i) := reach index v.items
    list (vs.set i (changeAt change rest (vs[i]?.getD null)))

/-- A character of a name in a path. -/
def isNameChar (c : Char) : Bool := c.isAlphanum || c == '_' || c == '-'

/-- A blank around an index in a path. -/
def isIndexBlank (c : Char) : Bool := c == ' ' || c == '\t'

/-- Read a name. -/
def name? (cs : List Char) : Option (String × List Char) :=
  let name := cs.takeWhile isNameChar
  if name.isEmpty then none else some (String.ofList name, cs.dropWhile isNameChar)

/-- Read an index of 64 bits and the bracket behind it. -/
def index? (cs : List Char) : Option (Int × List Char) :=
  let (negative, cs) := match cs.dropWhile isIndexBlank with
    | '-' :: rest => (true, rest)
    | rest => (false, rest)
  let digits := cs.takeWhile Char.isDigit
  let size : Int := Decimal.ofDigits digits
  let index := if negative then -size else size
  match (cs.dropWhile Char.isDigit).dropWhile isIndexBlank with
  | ']' :: rest =>
    if digits.isEmpty || index < -Decimal.twoTo 63 || Decimal.twoTo 63 ≤ index then none
    else some (index, rest)
  | _ => none

/-- Read the steps behind the first name: a dot and a name, or an index in brackets. Each step takes
something off the text, so its length is enough fuel. -/
def steps? : Nat → List Char → Option (List Step)
  | _, [] => some []
  | fuel + 1, '.' :: rest => do
    let (name, rest) ← name? rest
    return .entry name :: (← steps? fuel rest)
  | fuel + 1, '[' :: rest => do
    let (index, rest) ← index? rest
    return .item index :: (← steps? fuel rest)
  | _, _ => none

/-- The path that a key spells. A key that spells none is one name. -/
def pathOf (key : String) : List Step :=
  let path : Option (List Step) := do
    let (name, rest) ← name? key.toList
    return .entry name :: (← steps? rest.length rest)
  path.getD [.entry key]

/-- Lay a value at a key over a tree. -/
def layAt (tree : Value) (key : String) (value : Value) : Value :=
  changeAt (lay value) (pathOf key) tree

/-- Read a value as a text. -/
def asText : Value → Except Refusal String
  | text s => .ok s
  | flag b => .ok (if b then "true" else "false")
  | whole i => .ok (toString i)
  | float x => .ok (Decimal.positional x)
  | null | list _ | table _ => .error .notText

/-- The words for true. -/
def trueWords : List String := ["true", "on", "yes"]

/-- The words for false. -/
def falseWords : List String := ["false", "off", "no"]

/-- Read a value as a flag. -/
def asFlag : Value → Except Refusal Bool
  | flag b => .ok b
  | whole i => .ok (i != 0)
  | float x => .ok (x != 0.0)
  | text s =>
    let word := Text.lower s
    if trueWords.contains word || word == "1" then .ok true
    else if falseWords.contains word || word == "0" then .ok false
    else .error .notFlag
  | null | list _ | table _ => .error .notFlag

/-- The whole number of 64 bits nearest to a float; halves go away from zero. -/
def countOfFloat (x : Float) : Nat := x.round.toUInt64.toNat

/-- Read a value as a number of things, below a bound. -/
def asCount (bound : Nat) (v : Value) : Except Refusal Nat := do
  let n ← match v with
    | whole i => if 0 ≤ i then pure i.toNat else throw .notCount
    | flag b => pure (if b then 1 else 0)
    | float x => pure (countOfFloat x)
    | text s =>
      let word := Text.lower s
      if trueWords.contains word then pure 1
      else if falseWords.contains word then pure 0
      else
        match Decimal.count (Decimal.twoTo 64) s with
        | .ok n => pure n
        | .error _ => throw .notCount
    | null | list _ | table _ => throw .notCount
  if n < bound then return n else throw .notCount

/-- Read a value as one of some choices: its word, or a table whose only name is that word. -/
def asChoice {α : Type} (ofName? : String → Option α) (v : Value) : Except Refusal α :=
  let word : Option String := match v with
    | text s => some s
    | table [(name, _)] => some name
    | _ => none
  match word.bind ofName? with
  | some a => .ok a
  | none => .error .notChoice

/-- Read a value that may be left out. -/
def asOptional {α : Type} (read : Value → Except Refusal α) : Value → Except Refusal (Option α)
  | null => .ok none
  | v => (read v).map some

end Value

end ShortLinks.Settings
