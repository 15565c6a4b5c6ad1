import ShortLinks.Store.Table
import ShortLinks.Text.Bytes

/-!
# The image of a database

A table as a file of its own: a heading, which tells whether changes go to a log first, and then
one line for each row. It holds nothing of the circumstances that a table can be in.
-/

namespace ShortLinks.Database

/-- The first line of an image. -/
def imageHeading (logged : Bool) : String :=
  "table of short links 1" ++ if logged then "" else ", without a log"

/-- The image of a table. -/
def image (t : Table) : Bytes :=
  let lines := imageHeading t.logged :: t.rows.map Record.lineText
  Text.encode (String.join (lines.map (· ++ "\n")))

/-- The row in a line of an image. -/
def rowOf? (line : Bytes) : Option Record :=
  (Text.decode? line).bind fun s => (Record.readLine s.toList).toOption

/-- The table in an image, if it is one. -/
def ofImage? (bytes : Bytes) : Option Table :=
  match Text.splitLines bytes with
  | [] => none
  | heading :: lines =>
    let isHeading (logged : Bool) : Bool := heading = Text.encode (imageHeading logged)
    if isHeading true || isHeading false then
      (lines.mapM rowOf?).map fun rows => { rows, logged := isHeading true }
    else none

end ShortLinks.Database
