import ShortLinks.Proofs.Deletion.Progress
import ShortLinks.Proofs.Store.Buried

/-!
# What a pipeline does to the links in memory

The ledger of a run says which deletions the store was asked for and what each answered. Those that
succeeded bury the links of the owner under their codes, and the others change nothing, so the store
at the end is told by the codes that the report calls deleted. It does not matter in which order
they came, how many ran at once, or what became of other attempts at the same code. Where nothing
fails and nothing is stopped these are the codes of the request, and deleting them one after another
gives the same store.
-/

namespace ShortLinks.Deletion

variable {owner : String} {workers : Nat} {s : State Memory} {events : List Event}
  {calls : List Outcome} {codes : List String} {setting setting' : Setting Memory}
  {cancelled : Bool}

/-- The codes whose deletion succeeded, as often as it did. -/
def succeeded (calls : List Outcome) : List String :=
  calls.filterMap fun outcome => if outcome.result.isOk then some outcome.job.code else none

/-- Delete codes one after another, up to the first that fails. -/
def deleteEach {σ : Type} (storage : Storage σ) (owner : String) (codes : List String) :
    Action σ Unit :=
  codes.forM fun code => storage.delete code owner

/-- Deletions one after another bury the links under the codes for which they succeeded. -/
theorem Performs.buries (h : Performs Memory.storage owner setting calls setting') :
    setting'.store = setting.store.bury owner (succeeded calls) := by
  induction h with
  | nil => exact (Memory.bury_nil setting.store owner).symm
  | @snoc calls next job _ ih =>
    have hlast (result : Except Fault Unit) :
        succeeded [⟨job, result⟩] = if result.isOk then [job.code] else [] := by
      cases result <;> rfl
    rw [succeeded, List.filterMap_append, ← succeeded, ← succeeded, hlast, ← Memory.bury_bury, ← ih]
    exact Memory.store_delete job.code owner next

/-- A deletion succeeds where nothing keeps records from being logged, and this stays so. -/
theorem run_delete_sound (code owner : String) (hsound : setting.store.Sound setting.files) :
    ∃ setting', (Memory.storage.delete code owner).run setting = (.ok (), setting') ∧
      setting'.store.Sound setting'.files := by
  obtain ⟨hjournal, hfaults, hcases⟩ :=
    Memory.delete_cases setting.store setting.files code owner
  have hok : ((Memory.storage.delete code owner).run setting).1 = .ok () := by
    obtain ⟨hok, -⟩ | ⟨-, -, -, hunsound⟩ := hcases
    · exact hok
    · exact absurd hsound hunsound
  refine ⟨_, Prod.ext hok rfl, fun hsome => hfaults.trans (hsound ?_)⟩
  rwa [← hjournal]

/-- Where nothing keeps records from being logged, every deletion succeeds. -/
theorem Performs.succeeds (h : Performs Memory.storage owner setting calls setting')
    (hsound : setting.store.Sound setting.files) :
    setting'.store.Sound setting'.files ∧ ∀ outcome ∈ calls, outcome.result = .ok () := by
  induction h with
  | nil => exact ⟨hsound, nofun⟩
  | @snoc calls next job _ ih =>
    obtain ⟨hsound', hcalls⟩ := ih
    obtain ⟨next', hdelete, hsound''⟩ := run_delete_sound job.code owner hsound'
    rw [hdelete]
    refine ⟨hsound'', fun outcome hmem => ?_⟩
    rw [List.mem_append, List.mem_singleton] at hmem
    obtain hearlier | rfl := hmem
    · exact hcalls outcome hearlier
    · rfl

/-- Codes that could all be deleted one after another are those whose links are buried. -/
theorem deleteEach_buries
    (h : (deleteEach Memory.storage owner codes).run setting = (.ok (), setting')) :
    setting'.store = setting.store.bury owner codes := by
  induction codes generalizing setting with
  | nil =>
    cases h
    exact (Memory.bury_nil _ owner).symm
  | cons code rest ih =>
    obtain ⟨_, next, hdelete, hrest⟩ := run_bind_ok h
    have hstore := Memory.store_delete code owner setting
    have hrun : (Memory.delete code owner).run setting = (.ok (), next) := hdelete
    rw [hrun] at hstore
    have hnext : next.store = setting.store.bury owner [code] := hstore
    rw [ih hrest, hnext, Memory.bury_bury]
    rfl

/-- Where nothing keeps records from being logged, all codes can be deleted. -/
theorem deleteEach_sound (hsound : setting.store.Sound setting.files) (codes : List String) :
    ∃ setting', (deleteEach Memory.storage owner codes).run setting = (.ok (), setting') := by
  induction codes generalizing setting with
  | nil => exact ⟨setting, rfl⟩
  | cons code rest ih =>
    obtain ⟨next, hdelete, hsound'⟩ := run_delete_sound code owner hsound
    obtain ⟨setting', hrest⟩ := ih hsound'
    refine ⟨setting', ?_⟩
    have hcons : deleteEach Memory.storage owner (code :: rest) =
        Memory.storage.delete code owner >>= fun _ => deleteEach Memory.storage owner rest := rfl
    rw [hcons, run_bind, hdelete]
    exact hrest

/-- When a run is over, the links are buried under the codes that its report calls deleted. -/
theorem Runs.buries
    (h : Runs Memory.storage owner workers (.initial codes cancelled setting) events calls s)
    (hover : s.isOver) :
    s.setting.store = setting.store.bury owner (s.report codes).deleted := by
  obtain ⟨⟨hrunning, hanswered⟩, -⟩ := h.over hover
  obtain ⟨hcalls, -⟩ := h.books.outcomes_perm hrunning hanswered
  have hdeleted : (s.report codes).deleted = succeeded s.outcomes := rfl
  have hstore : s.setting.store = setting.store.bury owner (succeeded calls) := h.performs.buries
  rw [hstore, hdeleted]
  apply Memory.bury_congr
  intro code
  exact (hcalls.filterMap _).mem_iff.symm

/-- When a run is over that was not stopped and has no failure, its report calls all codes
deleted. -/
theorem Runs.deleted_eq {σ : Type} {storage : Storage σ} {s : State σ} {setting : Setting σ}
    (h : Runs storage owner workers (.initial codes cancelled setting) events calls s)
    (hover : s.isOver) (huncancelled : cancelled = false ∧ .cancel ∉ events)
    (hfailed : (s.report codes).failed = []) : (s.report codes).deleted = codes := by
  obtain ⟨⟨hrunning, hanswered⟩, hall⟩ := h.over hover
  have haccounts := h.books.accounts hrunning hanswered
  have hfailedAt : s.failedAt = [] := by
    have hfailures := haccounts.failed
    rw [hfailed] at hfailures
    exact List.forall₂_nil_right_iff.1 hfailures
  have hskippedAt : s.skippedAt codes = [] := by
    rw [State.skippedAt, hall huncancelled.1 huncancelled.2]
    rfl
  rw [hfailedAt, hskippedAt] at haccounts
  exact haccounts.report_deleted_eq

/-- When a run is over in which nothing kept records from being logged, nothing failed. -/
theorem Runs.failed_eq_nil
    (h : Runs Memory.storage owner workers (.initial codes cancelled setting) events calls s)
    (hover : s.isOver) (hsound : setting.store.Sound setting.files) :
    (s.report codes).failed = [] := by
  obtain ⟨⟨hrunning, hanswered⟩, -⟩ := h.over hover
  obtain ⟨hcalls, -⟩ := h.books.outcomes_perm hrunning hanswered
  obtain ⟨-, hok⟩ := h.performs.succeeds hsound
  rw [State.report, List.filterMap_eq_nil_iff]
  intro outcome hmem
  rw [hok outcome (hcalls.mem_iff.1 hmem)]

/-- At the end of every run on links in memory, whatever its codes, the number of workers, the order
of the events, the moment at which the token is cancelled and the records that cannot be logged:

* a link has its tombstone if it had it before, or if it is one of the owner's and the report calls
  its code deleted, and only then; nothing else in the store has changed, and the same is true of
  the run that is carried out;
* if nothing was stopped and nothing failed, the report calls every code deleted, and the store is
  the same as after any other such run for these codes and this owner, with however many workers,
  and the same as after deleting the codes one after another;
* if nothing keeps records from being logged, nothing fails, neither in the run nor when the codes
  are deleted one after another. -/
theorem tombstones_are_those_reported (r : Request)
    (hrun : Runs Memory.storage r.owner r.limit (.initial r.codes r.cancelled setting) events calls
      s) (hover : s.isOver) :
    (Memory.Tombstoned r.owner (s.report r.codes).deleted setting.store s.setting.store ∧
      Memory.Tombstoned r.owner (r.run Memory.storage setting).1.report.deleted setting.store
        (r.run Memory.storage setting).2.store) ∧
    (r.cancelled = false ∧ .cancel ∉ events → (s.report r.codes).failed = [] →
      (s.report r.codes).deleted = r.codes ∧
      (∀ (r' : Request) events' calls' s', r'.codes = r.codes → r'.owner = r.owner →
        Runs Memory.storage r'.owner r'.limit (.initial r'.codes r'.cancelled setting) events'
          calls' s' → s'.isOver → r'.cancelled = false ∧ .cancel ∉ events' →
        (s'.report r'.codes).failed = [] → s'.setting.store = s.setting.store) ∧
      ∀ setting', (deleteEach Memory.storage r.owner r.codes).run setting = (.ok (), setting') →
        setting'.store = s.setting.store) ∧
    (setting.store.Sound setting.files → (s.report r.codes).failed = [] ∧
      ∃ setting',
        (deleteEach Memory.storage r.owner r.codes).run setting = (.ok (), setting')) := by
  have hstore := hrun.buries hover
  refine ⟨⟨?_, ?_⟩, fun huncancelled hfailed => ?_, fun hsound => ?_⟩
  · rw [hstore]
    exact Memory.tombstoned_bury _ _ _
  · obtain ⟨_, _, last, hrun', hover', hreport, hlast⟩ := r.run_runs Memory.storage setting
    rw [hreport, hlast, hrun'.buries hover']
    exact Memory.tombstoned_bury _ _ _
  · have hdeleted := hrun.deleted_eq hover huncancelled hfailed
    rw [hdeleted] at hstore
    refine ⟨hdeleted, ?_, fun setting' heach => (deleteEach_buries heach).trans hstore.symm⟩
    intro r' events' calls' s' hcodes howner hrun' hover' huncancelled' hfailed'
    have hstore' := hrun'.buries hover'
    rw [hrun'.deleted_eq hover' huncancelled' hfailed', hcodes, howner] at hstore'
    exact hstore'.trans hstore.symm
  · exact ⟨hrun.failed_eq_nil hover hsound, deleteEach_sound hsound r.codes⟩

/-- Two owners who share a code, with a journal on files that follow a fault plan. -/
def shared (faults : FaultPlan) : Setting Memory where
  store := {
    owners := .replay .empty [⟨"a", "http://a.b", "u", false⟩, ⟨"b", "http://b.b", "u", false⟩,
      ⟨"a", "http://a.b", "v", false⟩, ⟨"c", "http://c.b", "v", false⟩]
    journal := some { path := "j", writer := some 0 } }
  files := { faults }

/-- The first of two deletions of a code cannot be logged, and the second can; then the token is
cancelled before the last code is taken. Where all records can be logged, a run with two workers
ends with the same store as one deletion after another. -/
theorem tombstones_are_those_reported_twin :
    (∃ events calls s, Runs Memory.storage "u" 2 (.initial ["a", "c", "a", "b"] false
        (shared fun n _ => if n = 0 then some .tooLarge else none)) events calls s ∧
      s.isOver ∧ .cancel ∈ events ∧ (s.report ["a", "c", "a", "b"]).deleted = ["c", "a"] ∧
      (s.report ["a", "c", "a", "b"]).failed.map Failure.code = ["a"] ∧
      s.setting.store.owners.link? "u" "a" = some ⟨"http://a.b", true⟩ ∧
      s.setting.store.owners.link? "u" "b" = some ⟨"http://b.b", false⟩ ∧
      s.setting.store.owners.link? "v" "a" = some ⟨"http://a.b", false⟩ ∧
      s.setting.store.owners.link? "v" "c" = some ⟨"http://c.b", false⟩) ∧
    ∃ events calls s setting', Runs Memory.storage "u" 2 (.initial ["a", "c", "a", "b"] false
        (shared noFaults)) events calls s ∧ s.isOver ∧ .cancel ∉ events ∧
      (deleteEach Memory.storage "u" ["a", "c", "a", "b"]).run (shared noFaults) =
        (.ok (), setting') ∧ setting'.store = s.setting.store := by
  let request : Request := { codes := ["a", "c", "a", "b"], owner := "u", workers := 2 }
  constructor
  · let unlogged : Except Fault Unit :=
      .error (Journal.pathFault "Failed to append to" "j" .tooLarge)
    let events : List Event := [.feed, .look, .start, .feed, .look, .start, .feed, .answer 1,
      .answer 0, .look, .gather 1, .look, .gather 0, .look, .start, .feed, .answer 2, .cancel,
      .notice, .look, .gather 2, .quit, .leave]
    have hend : (events.foldlM (State.step Memory.storage "u" 2) (.initial ["a", "c", "a", "b"]
        false (shared fun n _ => if n = 0 then some .tooLarge else none))).map
          (fun s => (s.isOver, s.gathered)) =
        some (true, [⟨⟨1, "c"⟩, .ok ()⟩, ⟨⟨0, "a"⟩, unlogged⟩, ⟨⟨2, "a"⟩, .ok ()⟩]) := rfl
    obtain ⟨s, hsteps, hs⟩ := Option.map_eq_some_iff.1 hend
    obtain ⟨hover, hgathered⟩ := Prod.mk.inj hs
    obtain ⟨calls, hrun⟩ := runs_of_steps hsteps
    obtain ⟨⟨⟨-, -, hlinks⟩, -⟩, -⟩ := tombstones_are_those_reported request hrun hover
    have houtcomes : s.outcomes =
        [⟨⟨0, "a"⟩, unlogged⟩, ⟨⟨1, "c"⟩, .ok ()⟩, ⟨⟨2, "a"⟩, .ok ()⟩] := by
      simp [State.outcomes, hgathered, List.mergeSort, List.MergeSort.Internal.splitInTwo]
    have hreport : (s.report request.codes).deleted = ["c", "a"] ∧
        (s.report request.codes).failed.map Failure.code = ["a"] := by
      rw [State.report, houtcomes]
      exact ⟨rfl, rfl⟩
    rw [hreport.1] at hlinks
    refine ⟨events, calls, s, hrun, hover, by decide, hreport.1, hreport.2, ?_, ?_, ?_, ?_⟩
    · exact (hlinks _ _ _).2 ⟨⟨"http://a.b", false⟩, rfl, rfl, by simp [request]⟩
    · exact (hlinks _ _ _).2 ⟨⟨"http://b.b", false⟩, rfl, rfl, by simp [request]⟩
    · exact (hlinks _ _ _).2 ⟨⟨"http://a.b", false⟩, rfl, rfl, by simp [request]⟩
    · exact (hlinks _ _ _).2 ⟨⟨"http://c.b", false⟩, rfl, rfl, by simp [request]⟩
  · have hnil : Runs Memory.storage request.owner request.limit
        (.initial request.codes false (shared noFaults)) [] [] _ := .nil
    obtain ⟨events, calls, s, hrun, hover, hnever⟩ := hnil.finishes
    obtain ⟨-, hsame, hsound⟩ := tombstones_are_those_reported request hrun hover
    obtain ⟨hfailed, setting', heach⟩ := hsound fun _ => rfl
    obtain ⟨-, -, hstore⟩ := hsame ⟨rfl, hnever⟩ hfailed
    exact ⟨events, calls, s, setting', hrun, hover, hnever, heach, hstore setting' heach⟩

end ShortLinks.Deletion
