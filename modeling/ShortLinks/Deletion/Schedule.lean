import ShortLinks.Deletion.Pipeline

/-!
# Running the pipeline

One schedule of the deletion pipeline: as many deletions as may run are started before the oldest
one answers. A request can name codes whose deletion cancels the token just before it answers.
-/

namespace ShortLinks.Deletion

/-- What is asked of a pipeline. -/
structure Request where
  codes : List String
  owner : String
  /-- How many deletions may run at once; at least one always may. -/
  workers : Nat
  /-- The token is cancelled before the run. -/
  cancelled : Bool := false
  /-- The deletion of such a code cancels the token. -/
  cancels : String → Bool := fun _ => false

/-- How many deletions may run at once. -/
def Request.limit (r : Request) : Nat := max r.workers 1

/-- The events that the schedule tries, first choice first. -/
def Request.choices {σ : Type} (r : Request) (s : State σ) : List Event :=
  let oldest := s.running.head?.toList
  [.leave, .notice, .look] ++ (s.answered.map fun outcome => .gather outcome.job.position) ++
    [.start, .drain, .feed, .quit] ++
    (oldest.filterMap fun job => if r.cancels job.code then some .cancel else none) ++
    oldest.map fun job => .answer job.position

/-- A pipeline, and how many deletions were in flight at most. -/
structure Progress (σ : Type) where
  state : State σ
  peak : Nat := 0

/-- Let events happen until none can. -/
def Request.settle {σ : Type} (r : Request) (storage : Storage σ) :
    Nat → Progress σ → Progress σ
  | 0, p => p
  | fuel + 1, p =>
    match (r.choices p.state).findSome? (p.state.step storage r.owner r.limit) with
    | none => p
    | some s => r.settle storage fuel ⟨s, max p.peak s.inFlight⟩

/-- What a run gives. -/
structure Run where
  report : Report
  /-- How many deletions were in flight at most. -/
  peak : Nat

/-- Run a request against a store. Each job takes part in at most six events that are not a look,
and each of these allows one look. -/
def Request.run {σ : Type} (r : Request) (storage : Storage σ) (setting : Setting σ) :
    Run × Setting σ :=
  let p := r.settle storage (12 * r.codes.length + 12)
    ⟨.initial r.codes r.cancelled setting, 0⟩
  (⟨p.state.report r.codes, p.peak⟩, p.state.setting)

end ShortLinks.Deletion
