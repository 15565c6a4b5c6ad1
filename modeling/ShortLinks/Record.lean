import ShortLinks.Json.Fields
import ShortLinks.Json.Quoted

/-!
# Records and their journal lines

A record says that an owner has a code for a URL, and whether that link is deleted. In a journal a
record is one line of JSON. It is always written in one way: four members in a fixed order, the
flag as a text. It is read in any layout that JSON allows, with the owner and the flag left out,
and with the flag as a boolean, so journals written by hand or long ago are read too.
-/

namespace ShortLinks

/-- A link of an owner. -/
structure Record where
  code : String
  url : String
  owner : String
  deleted : Bool := false
  deriving DecidableEq, Repr

namespace Record

/-- The members of a journal line. -/
def shape : Json.Shape where
  title := "struct JournalRecord"
  fields :=
    [{ name := "short_url" }, { name := "original_url" }, { name := "user_id", required := false },
      { name := "is_deleted", kind := .flag, required := false }]

/-- The record in the cells of a journal line. -/
def ofCells : List Json.Cell → Except Json.Finding Record
  | [.text code, .text url, .text owner, .flag deleted] => .ok ⟨code, url, owner, deleted⟩
  | _ => .error .spent

/-- Read a journal line. -/
def readLine (line : List Char) : Except Json.Finding Record := do
  ofCells (← Json.atEnd (← shape.read line))

/-- The word for a flag. -/
def flagWord (b : Bool) : String := if b then "true" else "false"

/-- A member of a journal line. -/
def writeMember (name : String) (value : String) : List Char :=
  Json.quote name.toList ++ ':' :: Json.quote value.toList

/-- The journal line of a record, without the end of the line. -/
def writeLine (r : Record) : List Char :=
  '\x7b' :: writeMember "short_url" r.code ++ ',' :: writeMember "original_url" r.url ++
    ',' :: writeMember "user_id" r.owner ++ ',' :: writeMember "is_deleted" (flagWord r.deleted) ++
    ['\x7d']

/-- The journal line of a record as a text. -/
def lineText (r : Record) : String := String.ofList r.writeLine

end Record

end ShortLinks
