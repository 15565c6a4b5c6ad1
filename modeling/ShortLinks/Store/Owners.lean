import ShortLinks.Fault
import ShortLinks.Keyed
import ShortLinks.Record

/-!
# Links by owner

Every owner has a map from codes to links. The view is `link?`, the link of an owner under a code.
Putting a record changes the view at its own owner and code and nowhere else, and replaying a
journal is putting its records one after another.
-/

namespace ShortLinks

/-- What an owner keeps under a code. -/
structure Link where
  url : String
  deleted : Bool := false
  deriving DecidableEq, Repr

/-- How much a store holds: all links, deleted ones too, and the owners that have any. -/
structure Stats where
  links : Nat
  owners : Nat
  deriving DecidableEq, Repr

/-- The links of all owners. -/
abbrev Owners := Keyed String (Keyed String Link)

namespace Owners

/-- The links of one owner. -/
def linksOf (o : Owners) (owner : String) : Keyed String Link := (o.find? owner).getD .empty

/-- The link of an owner under a code. -/
def link? (o : Owners) (owner code : String) : Option Link := (o.linksOf owner).find? code

/-- Put a record in, over the link that its owner has under its code. -/
def put (o : Owners) (r : Record) : Owners :=
  o.insert r.owner ((o.linksOf r.owner).insert r.code ⟨r.url, r.deleted⟩)

/-- Putting a record sets one link. -/
theorem link?_put (o : Owners) (r : Record) (owner code : String) :
    (o.put r).link? owner code =
      if r.owner = owner ∧ r.code = code then some ⟨r.url, r.deleted⟩ else o.link? owner code := by
  by_cases ho : r.owner = owner
  · subst ho
    by_cases hc : r.code = code <;> simp [link?, linksOf, put, Keyed.find?_insert, hc]
  · simp [link?, linksOf, put, Keyed.find?_insert, ho]

/-- Put records in, one after another. -/
def replay (o : Owners) (records : List Record) : Owners := records.foldl put o

/-- Replaying two journals is replaying them one after the other. -/
theorem replay_append (o : Owners) (first second : List Record) :
    o.replay (first ++ second) = (o.replay first).replay second := List.foldl_append

/-- All links as records. -/
def records (o : Owners) : List Record :=
  o.entries.flatMap fun (owner, links) =>
    links.entries.map fun (code, link) => ⟨code, link.url, owner, link.deleted⟩

/-- The order of records in a backup: by owner, then by code. -/
def precedes (a b : Record) : Bool :=
  decide (a.owner < b.owner) || (a.owner == b.owner && decide (a.code ≤ b.code))

/-- All links as records in order. -/
def snapshot (o : Owners) : List Record := o.records.mergeSort precedes

/-- The links that any owner has under a code. -/
def linksUnder (o : Owners) (code : String) : List Link :=
  o.entries.filterMap fun (_, links) => links.find? code

/-- The URL behind a code. A link that is not deleted wins over deleted ones, whoever owns it. -/
def resolve (o : Owners) (code : String) : Except Fault String :=
  let links := o.linksUnder code
  match links.find? fun link => !link.deleted with
  | some link => .ok link.url
  | none => .error (if links.isEmpty then .codeNotFound code else .codeDeleted code)

/-- The links of an owner who has some. -/
def listing (o : Owners) (owner : String) : Except Fault (Keyed String Link) :=
  let links := o.linksOf owner
  if links.entries.isEmpty then .error (.ownerUnknown owner) else .ok links

/-- Count links and owners. -/
def stats (o : Owners) : Stats where
  links := o.entries.foldl (fun n (_, links) => n + links.size) 0
  owners := (o.entries.filter fun (_, links) => !links.entries.isEmpty).length

end Owners

end ShortLinks
