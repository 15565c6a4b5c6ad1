import ShortLinks.Code
import ShortLinks.Store
import ShortLinks.Url

/-!
# Shortening

Shortening a URL is: check it, compute its code, and keep it in the store under that code. A code
that is taken in the store counts as success, for the code of a URL is always the same.
-/

namespace ShortLinks

/-- What shortening a URL gives: its code, and whether the link is new. -/
inductive Shortened
  | created (code : String)
  | existing (code : String)
  deriving DecidableEq, Repr

namespace Shortened

/-- The code. -/
def code : Shortened → String
  | created code => code
  | existing code => code

/-- The link is new. -/
def isNew : Shortened → Bool
  | created _ => true
  | existing _ => false

end Shortened

namespace Service

variable {σ : Type}

/-- Shorten a URL for an owner. -/
def add (storage : Storage σ) (scheme : Scheme) (url owner : String) :
    Action σ Shortened := do
  Action.answer fun _ => Url.validate url
  let code := scheme.encode url
  match ← Action.outcome (storage.add code url owner) with
  | .ok () => return .created code
  | .error fault => if fault.kind = .conflict then return .existing code else throw fault

/-- Check the URLs of a batch. The first one refused is named by its correlation id. -/
def validateAll : List (String × String) → Except Fault Unit
  | [] => .ok ()
  | (id, url) :: rest =>
    match Url.validate url with
    | .ok () => validateAll rest
    | .error fault => .error ⟨.invalidUrl, id ++ ": " ++ fault.message⟩

/-- The URLs of a batch by their codes. Of two URLs with one code the later is kept. -/
def byCode (scheme : Scheme) (batch : Keyed String String) : Keyed String String :=
  Keyed.ofList (batch.entries.map fun (_, url) => (scheme.encode url, url))

/-- The codes of a batch by correlation id. -/
def codes (scheme : Scheme) (batch : Keyed String String) : Keyed String String :=
  Keyed.ofList (batch.entries.map fun (id, url) => (id, scheme.encode url))

/-- Shorten the URLs of a batch for an owner. All are checked before the store is touched. -/
def addBatch (storage : Storage σ) (scheme : Scheme) (batch : Keyed String String)
    (owner : String) : Action σ (Keyed String String) := do
  Action.answer fun _ => validateAll batch.entries
  if batch.entries.isEmpty then return .empty
  match ← Action.outcome (storage.addBatch (byCode scheme batch) owner) with
  | .ok () => return codes scheme batch
  | .error fault =>
    if fault.kind = .conflict then return codes scheme batch else throw fault

end Service

end ShortLinks
