import ShortLinks.Json.Fields
import ShortLinks.Keyed

/-!
# Batch files

A batch file is a JSON array of items, each with a correlation id and a URL. The ids must be
distinct; the first one that comes again is reported, and nothing of the file is used.
-/

namespace ShortLinks.Batch

/-- The members of an item. -/
def shape : Json.Shape where
  title := "struct BatchItem"
  fields := [{ name := "correlation_id" }, { name := "original_url" }]

/-- The id and the URL in the cells of an item. -/
def ofCells : List Json.Cell → Except Json.Finding (String × String)
  | [.text id, .text url] => .ok (id, url)
  | _ => .error .spent

/-- Read items up to the closing bracket. The text stands where an item must come. -/
def readItems : Nat → List (String × String) → List Char →
    Except Json.Finding (List (String × String) × List Char)
  | 0, _, _ => .error .spent
  | fuel + 1, read, cs => do
    let (cells, rest) ← shape.read cs
    let item ← ofCells cells
    match Json.skipSpace rest with
    | ',' :: rest => Json.afterComma (readItems fuel (item :: read)) rest
    | ']' :: rest => return ((item :: read).reverse, rest)
    | rest => .error (.missing .endInList .noListComma rest)

/-- Read the items of a batch file in order. -/
def items (content : String) : Except Json.Finding (List (String × String)) := do
  match Json.skipSpace content.toList with
  | '[' :: rest =>
    match Json.skipSpace rest with
    | ']' :: rest => Json.atEnd ([], rest)
    | [] => .error (.here .endInList [])
    | rest => Json.atEnd (← readItems rest.length [] rest)
  | cs => Json.refuse "a sequence" cs

/-- What makes a batch file unusable. -/
inductive Problem
  | flaw (report : Json.Report)
  | repeated (id : String)
  deriving DecidableEq, Repr

/-- The sentence for a problem. -/
def Problem.sentence : Problem → String
  | .flaw report => "Invalid batch file: " ++ report.sentence
  | .repeated id => "Duplicate correlation_id: " ++ id

/-- File items under their ids. -/
def collect (batch : Keyed String String) :
    List (String × String) → Except Problem (Keyed String String)
  | [] => .ok batch
  | (id, url) :: rest =>
    if batch.contains id then .error (.repeated id) else collect (batch.insert id url) rest

/-- Read a batch file. -/
def read (content : String) : Except Problem (Keyed String String) :=
  match items content with
  | .error finding => .error (.flaw (finding.report content.toList))
  | .ok items => collect .empty items

end ShortLinks.Batch
