import ShortLinks.Json.Lexeme

/-!
# JSON values

A whole value, read with a bound on how deeply brackets may nest. Numbers out of range and halves
of surrogate pairs are refused. Of two members with one name the later counts.
-/

namespace ShortLinks.Json

/-- A JSON value. -/
inductive Value
  | null
  | bool (b : Bool)
  | number (n : Numeric)
  | text (s : String)
  | list (items : List Value)
  | object (members : List (String × Value))

/-- What `readPart` reads at a time. -/
inductive Part
  | value
  | items (read : List Value)
  | members (read : List (String × Value))

/-- Read a value that is no bracket. -/
def readScalar (cs : List Char) : Except Finding (Value × List Char) :=
  match cs with
  | 'n' :: _ => (dropWord "null" cs).map (.null, ·)
  | 't' :: _ => (dropWord "true" cs).map (.bool true, ·)
  | 'f' :: _ => (dropWord "false" cs).map (.bool false, ·)
  | '"' :: rest => (readString rest).map fun (s, rest) => (.text s, rest)
  | _ => (readNumber cs).map fun (n, rest) => (.number n, rest)

/-- Read the name of a member and the colon behind it. -/
def readName (cs : List Char) : Except Finding (String × List Char) :=
  match skipSpace cs with
  | '"' :: rest => do
    let (s, rest) ← readString rest
    let rest ← readColon rest
    return (s, rest)
  | rest => .error (noName rest)

/-- Read a part of a value. `depth` brackets may still open. Inside a bracket, the text stands
where a further item or member must come. -/
def readPart : Nat → Nat → Part → List Char → Except Finding (Value × List Char)
  | 0, _, _, _ => .error .spent
  | fuel + 1, depth, .value, cs =>
    match skipSpace cs with
    | '[' :: rest =>
      match depth, skipSpace rest with
      | 0, _ => .error (.next .tooDeep ('[' :: rest))
      | _ + 1, ']' :: rest => .ok (.list [], rest)
      | _ + 1, [] => .error (.here .endInList [])
      | depth + 1, rest => readPart fuel depth (.items []) rest
    | '\x7b' :: rest =>
      match depth, skipSpace rest with
      | 0, _ => .error (.next .tooDeep ('\x7b' :: rest))
      | _ + 1, '\x7d' :: rest => .ok (.object [], rest)
      | _ + 1, [] => .error (.here .endInObject [])
      | depth + 1, rest => readPart fuel depth (.members []) rest
    | cs => readScalar cs
  | fuel + 1, depth, .items read, cs => do
    let (item, rest) ← readPart fuel depth .value cs
    match skipSpace rest with
    | ',' :: rest => afterComma (readPart fuel depth (.items (item :: read))) rest
    | ']' :: rest => return (.list (item :: read).reverse, rest)
    | rest => .error (.missing .endInList .noListComma rest)
  | fuel + 1, depth, .members read, cs => do
    let (name, rest) ← readName cs
    let (member, rest) ← readPart fuel depth .value rest
    match skipSpace rest with
    | ',' :: rest => readPart fuel depth (.members ((name, member) :: read)) rest
    | '\x7d' :: rest => return (.object ((name, member) :: read).reverse, rest)
    | rest => .error (.missing .endInObject .noObjectComma rest)

/-- Read a value in which at most `depth` brackets stand inside each other. -/
def readValue (depth : Nat) (cs : List Char) : Except Finding (Value × List Char) :=
  readPart (2 * cs.length + 2) depth .value cs

/-- How deeply brackets may nest in a text. -/
def maxDepth : Nat := 127

/-- Accept the end of a text: nothing but blanks. -/
def atEnd {α : Type} (result : α × List Char) : Except Finding α :=
  match skipSpace result.2 with
  | [] => .ok result.1
  | rest => .error (.next .trailingText rest)

/-- Read a text that holds one value and nothing else. -/
def readDocument (s : String) : Except Finding Value := do
  atEnd (← readValue maxDepth s.toList)

end ShortLinks.Json
