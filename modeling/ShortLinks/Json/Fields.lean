import ShortLinks.Json.Skip
import ShortLinks.Text.Blank
import ShortLinks.Text.Case
import ShortLinks.Json.Value

/-!
# Reading named fields

A record type is described by a `Shape`: its name and its fields, in order. A JSON object gives
them by name, in any order and with members besides that nobody asked for; a JSON array gives them
by position, and fields that need not be given may be cut off at its end. The cells come back in
the order of the fields.

The flaw reported is the first that the text shows: a name that comes again before its value, a
value of the wrong type at its place, a missing field only at the closing brace.
-/

namespace ShortLinks.Json

/-- What a field holds. -/
inductive FieldKind
  | text
  | flag
  deriving DecidableEq, Repr

/-- A field of a record type. One that is not required is empty, or false, where it is not given. -/
structure Field where
  name : String
  kind : FieldKind := .text
  required : Bool := true
  deriving DecidableEq, Repr

/-- A record type as it is read. -/
structure Shape where
  title : String
  fields : List Field
  deriving DecidableEq, Repr

/-- The value of a field. -/
inductive Cell
  | text (s : String)
  | flag (b : Bool)
  deriving DecidableEq, Repr

/-- The cell of a field that is not given. -/
def FieldKind.default : FieldKind → Cell
  | .text => .text ""
  | .flag => .flag false

/-- How deeply brackets may nest inside a flag, which lies in a bracket already. -/
def flagDepth : Nat := maxDepth - 1

/-- A flag from the text that stands for it: blank ends and case do not matter, and the empty text
is false. -/
def flagOfText (s : String) : Except Flaw Bool :=
  let word := Text.lowerAscii (Text.trim s)
  if word = "true" then .ok true
  else if word = "false" ∨ word = "" then .ok false
  else .error (.unknownFlag word)

/-- A flag from a value: a boolean, or a text that stands for one. -/
def flagOfValue : Value → Except Flaw Bool
  | .bool b => .ok b
  | .text s => flagOfText s
  | _ => .error .noAlternative

/-- Read the value of a field. -/
def readCell (kind : FieldKind) (cs : List Char) : Except Finding (Cell × List Char) :=
  match kind with
  | .text => (readText cs).map fun (s, rest) => (.text s, rest)
  | .flag =>
    match readValue flagDepth cs with
    | .error finding => .error finding
    | .ok (v, rest) =>
      match flagOfValue v with
      | .ok b => .ok (.flag b, rest)
      | .error flaw => .error { flaw, rest }

namespace Shape

/-- The cells found so far, one place for each field. -/
abbrev Draft := List (Option Cell)

/-- The cells of a record whose text has ended. -/
def finish : List Field → Draft → Except Flaw (List Cell)
  | [], _ => .ok []
  | field :: fields, found => do
    let cell ← match found.head?.join with
      | some cell => .ok cell
      | none =>
        if field.required then .error (.missingField field.name) else .ok field.kind.default
    return cell :: (← finish fields found.tail)

/-- Read the value of the member `name`, behind its name. -/
def readMember (shape : Shape) (found : Draft) (name : String) (cs : List Char) :
    Except Finding (Draft × List Char) :=
  match shape.fields.findIdx? (fun field => field.name == name) with
  | none => do
    let rest ← readColon cs
    let rest ← skipValue rest
    return (found, rest)
  | some i =>
    if (found[i]?.join).isSome then .error { flaw := .duplicateField name, rest := cs }
    else do
      let rest ← readColon cs
      let kind := (shape.fields[i]?.map Field.kind).getD .text
      let (cell, rest) ← readCell kind rest
      return (found.set i (some cell), rest)

/-- The record whose text goes on with its closing brace. -/
def conclude (shape : Shape) (found : Draft) (cs : List Char) :
    Except Finding (List Cell × List Char) :=
  match finish shape.fields found with
  | .ok cells => .ok (cells, cs.tail)
  | .error flaw => .error { flaw, rest := cs }

/-- Read members up to the closing brace. The text stands where a member must come; every member
is longer than its quotes, so the length of the text is enough fuel. -/
def readMembers (shape : Shape) : Nat → Draft → List Char → Except Finding (List Cell × List Char)
  | 0, _, _ => .error .spent
  | fuel + 1, found, cs =>
    match skipSpace cs with
    | '"' :: rest => do
      let (name, rest) ← readString rest
      let (found, rest) ← shape.readMember found name rest
      match skipSpace rest with
      | ',' :: rest => shape.readMembers fuel found rest
      | '\x7d' :: rest => shape.conclude found ('\x7d' :: rest)
      | rest => .error (.missing .endInObject .noObjectComma rest)
    | rest => .error (noName rest)

/-- Read the fields of an object, behind its opening brace. -/
def readObject (shape : Shape) (cs : List Char) : Except Finding (List Cell × List Char) :=
  let found : Draft := shape.fields.map fun _ => none
  match skipSpace cs with
  | '\x7d' :: rest => shape.conclude found ('\x7d' :: rest)
  | [] => .error (.here .endInObject [])
  | _ => shape.readMembers cs.length found cs

/-- The name of the type in a sentence about its length. -/
def lengthTitle (shape : Shape) : String :=
  shape.title ++ " with " ++ toString shape.fields.length ++ " elements"

/-- What is wrong with an array that does not end behind its last field. -/
def noEnd : List Char → Finding
  | [] => .here .endInList []
  | ',' :: rest =>
    match skipSpace rest with
    | ']' :: rest => .next .trailingComma (']' :: rest)
    | rest => .next .trailingText rest
  | rest => .next .trailingText rest

/-- Read the fields from `index` on of an array. Before the first one there is no comma. -/
def readItems (shape : Shape) (index : Nat) :
    List Field → List Char → Except Finding (List Cell × List Char)
  | [], cs =>
    match skipSpace cs with
    | ']' :: rest => .ok ([], rest)
    | rest => .error (noEnd rest)
  | field :: fields, cs =>
    match skipSpace cs with
    | ']' :: _ =>
      if field.required then .error { flaw := .wrongLength index shape.lengthTitle, rest := cs }
      else do
        let (cells, rest) ← shape.readItems (index + 1) fields cs
        return (field.kind.default :: cells, rest)
    | ',' :: rest =>
      if index = 0 then .error (.next .noValue (',' :: rest))
      else do
        let (cell, rest) ← afterComma (readCell field.kind) rest
        let (cells, rest) ← shape.readItems (index + 1) fields rest
        return (cell :: cells, rest)
    | [] => .error (.here .endInList [])
    | rest =>
      if index = 0 then do
        let (cell, rest) ← readCell field.kind rest
        let (cells, rest) ← shape.readItems (index + 1) fields rest
        return (cell :: cells, rest)
      else .error (.next .noListComma rest)

/-- What a reader leaves unread when it gives an object up: the closing brace, if it comes next, is
read. -/
def closeObject (cs : List Char) : List Char :=
  match skipSpace cs with
  | '\x7d' :: rest => rest
  | rest => rest

/-- What a reader leaves unread when it gives an array up: the closing bracket or the comma, if one
comes next, is read. -/
def closeList (cs : List Char) : List Char :=
  match skipSpace cs with
  | ']' :: rest => rest
  | ',' :: rest => skipSpace rest
  | rest => rest

/-- Read the fields of a record. -/
def read (shape : Shape) (cs : List Char) : Except Finding (List Cell × List Char) :=
  match skipSpace cs with
  | '\x7b' :: rest => (shape.readObject rest).mapError (·.settle closeObject)
  | '[' :: rest => (shape.readItems 0 shape.fields rest).mapError (·.settle closeList)
  | rest => refuse shape.title rest

end Shape

end ShortLinks.Json
