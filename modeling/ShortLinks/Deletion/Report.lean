import ShortLinks.Fault

/-!
# Reports on deletions

What became of the codes that were to be deleted: deleted, failed, or never attempted because the
run was stopped. A report collapses to one result, in which a failure counts more than a stop.
-/

namespace ShortLinks.Deletion

/-- A code whose deletion failed. -/
structure Failure where
  code : String
  fault : Fault
  deriving DecidableEq, Repr

/-- What became of each code, every list in the order of the request. -/
structure Report where
  deleted : List String := []
  failed : List Failure := []
  skipped : List String := []
  deriving DecidableEq, Repr

namespace Report

/-- Every code was deleted. -/
def isComplete (r : Report) : Bool := r.failed.isEmpty && r.skipped.isEmpty

/-- How many deletions were attempted. -/
def attempted (r : Report) : Nat := r.deleted.length + r.failed.length

/-- How many codes were not deleted. -/
def missed (r : Report) : Nat := r.failed.length + r.skipped.length

/-- The first failure, else the stop, else the deleted codes. -/
def result (r : Report) : Except Fault (List String) :=
  match r.failed with
  | failure :: _ => .error failure.fault
  | [] =>
    if r.skipped.isEmpty then .ok r.deleted
    else .error ⟨.cancelled, toString r.skipped.length ++ " deletion(s) not attempted"⟩

end Report

end ShortLinks.Deletion
