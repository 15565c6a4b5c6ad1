import Mathlib.Data.List.Induction
import ShortLinks.Proofs.Deletion.Accounting

/-!
# Every run ends with its accounts

A run that is not over can go on, and no run goes on for ever. When it is over nothing runs, no
answer waits, and the collector left because it saw the token cancelled or found the channel empty
for good; in the second case every job was started. So the report of every run that is over has the
accounts of its ledger, and the schedule that is carried out is one of these runs.
-/

namespace ShortLinks.Deletion

variable {σ : Type} {storage : Storage σ} {owner : String} {workers : Nat} {s s' : State σ}
  {event : Event} {events : List Event} {calls : List Outcome} {codes : List String}
  {setting : Setting σ} {cancelled : Bool} {r : Request}

/-- A run is over when the collector has gone and the feeder is done. -/
theorem isOver_iff : s.isOver ↔ s.phase = .gone ∧ s.feeding = false := by
  simp [State.isOver]

/-- There is at least one worker. -/
theorem Request.limit_pos (r : Request) : 0 < r.limit := Nat.le_max_right r.workers 1

/-- An event that the schedule tries can happen, and it is not that the token is cancelled. -/
def GoesOn (storage : Storage σ) (r : Request) (s : State σ) : Prop :=
  ∃ event ∈ r.choices s, event ≠ .cancel ∧ ∃ s', Moves storage r.owner r.limit s event s'

/-- A pipeline with nothing in flight and something to wait for can take a job or find that there is
none. -/
theorem Controls.goesOn_of_idle (h : Controls cancelled events s) (hphase : s.phase = .ready)
    (hrunning : s.running = []) (hanswered : s.answered = []) : GoesOn storage r s := by
  have hopen : s.noticed = false ∧ s.drained = false := by
    simpa [State.isDone, State.inFlight, hrunning, hanswered] using h.ready hphase
  have hroom : s.hasRoom r.limit := by
    simp [State.hasRoom, State.inFlight, hrunning, hanswered, hopen, r.limit_pos]
  cases hslot : s.slot with
  | some job =>
    exact ⟨.start, by simp [Request.choices], by simp, _, .start hslot hphase hanswered hroom⟩
  | none =>
    cases hfeeding : s.feeding with
    | false =>
      exact ⟨.drain, by simp [Request.choices], by simp, _,
        .drain hphase hanswered hroom hslot hfeeding⟩
    | true =>
      cases hwaiting : s.waiting with
      | nil =>
        exact ⟨.quit, by simp [Request.choices], by simp, _, .quit hfeeding (.inr (.inr hwaiting))⟩
      | cons job waiting =>
        have hclosed : s.closed = false := by
          rw [Bool.eq_false_iff]
          intro hclosed
          obtain hnoticed | hgone := h.closed hclosed
          · exact absurd (hopen.1.symm.trans hnoticed) Bool.false_ne_true
          · exact absurd (hphase.symm.trans hgone) (by simp)
        exact ⟨.feed, by simp [Request.choices], by simp, _, .feed hwaiting hslot hfeeding hclosed⟩

/-- A pipeline that is not over goes on. -/
theorem Controls.goesOn (h : Controls cancelled events s) (hover : s.isOver = false) :
    GoesOn storage r s := by
  cases hphase : s.phase with
  | gone =>
    have hfeeding : s.feeding = true := by simpa [State.isOver, hphase] using hover
    exact ⟨.quit, by simp [Request.choices], nofun, _, .quit hfeeding (.inr (.inl (h.gone hphase).1))⟩
  | looking =>
    cases hdone : s.isDone with
    | true => exact ⟨.leave, by simp [Request.choices], nofun, _, .leave hphase hdone⟩
    | false =>
      by_cases hnotice : s.cancelled = false ∨ s.noticed
      · exact ⟨.look, by simp [Request.choices], nofun, _, .look hphase hdone hnotice⟩
      · rw [not_or, Bool.not_eq_false, Bool.not_eq_true] at hnotice
        exact ⟨.notice, by simp [Request.choices], nofun, _,
          .notice (by simp [hphase]) hnotice.1 hnotice.2⟩
  | ready =>
    cases hanswered : s.answered with
    | cons outcome rest =>
      have hfirst : s.answered.find? (fun other => other.job.position == outcome.job.position) =
          some outcome := by rw [hanswered, List.find?_cons_of_pos (by simp)]
      exact ⟨.gather outcome.job.position, by simp [Request.choices, hanswered], nofun, _,
        .gather hfirst hphase⟩
    | nil =>
      cases hrunning : s.running with
      | cons job rest =>
        have holdest : s.running.find? (fun other => other.position == job.position) =
            some job := by rw [hrunning, List.find?_cons_of_pos (by simp)]
        exact ⟨.answer job.position, by simp [Request.choices, hrunning], nofun, _, .answer holdest⟩
      | nil => exact h.goesOn_of_idle hphase hrunning hanswered

/-- A run that is over has nothing running and no answer waiting. Unless the token was cancelled it
has started every job. -/
theorem Runs.over (h : Runs storage owner workers (.initial codes cancelled setting) events calls s)
    (hover : s.isOver) : (s.running = [] ∧ s.answered = []) ∧
      (cancelled = false → .cancel ∉ events → s.unstarted codes = []) := by
  have hcontrols := h.controls
  obtain ⟨hgone, hstopped⟩ := isOver_iff.1 hover
  obtain ⟨hidle, hcause⟩ := isDone_iff.1 (hcontrols.gone hgone).2
  refine ⟨hidle, fun hnot hnever => ?_⟩
  have huncancelled : ¬s.cancelled := fun hcancelled => by
    obtain hfirst | hlater := hcontrols.cancelled hcancelled
    · exact absurd (hnot.symm.trans hfirst) nofun
    · exact hnever hlater
  have hdrained : s.drained := hcause.resolve_left fun hnoticed =>
    huncancelled (hcontrols.noticed hnoticed)
  rw [h.books.unstarted_eq, (hcontrols.drained hdrained).1,
    (hcontrols.stopped hstopped).resolve_left huncancelled]
  rfl

/-- A run that cannot go on is over. -/
theorem Runs.isOver_of_stuck
    (h : Runs storage r.owner r.limit (.initial codes cancelled setting) events calls s)
    (hstuck : ¬GoesOn storage r s) : s.isOver := by
  by_contra hnot
  exact hstuck (h.controls.goesOn (Bool.eq_false_iff.2 hnot))

/-- The schedule takes a run further, and to its end if it may take as many events as can still
happen. -/
theorem settle_runs (fuel : Nat) {p : Progress σ}
    (h : Runs storage r.owner r.limit (.initial codes cancelled setting) events calls p.state) :
    ∃ events calls, Runs storage r.owner r.limit (.initial codes cancelled setting) events calls
        (r.settle storage fuel p).state ∧
      (p.state.left ≤ fuel → (r.settle storage fuel p).state.isOver) := by
  induction fuel generalizing events calls p with
  | zero =>
    refine ⟨events, calls, h, fun hleft => h.isOver_of_stuck ?_⟩
    rintro ⟨event, -, -, s', hmoves⟩
    have hless := hmoves.left_lt
    omega
  | succ fuel ih =>
    rw [Request.settle]
    split
    · next hnone =>
      refine ⟨events, calls, h, fun _ => h.isOver_of_stuck ?_⟩
      rintro ⟨event, htried, -, s', hmoves⟩
      rw [List.findSome?_eq_none_iff] at hnone
      cases (step_of_moves hmoves).symm.trans (hnone event htried)
    · next s' hsome =>
      obtain ⟨event, -, hstep⟩ := List.exists_of_findSome?_eq_some hsome
      have hmoves := moves_of_step hstep
      have hless := hmoves.left_lt
      obtain ⟨events', calls', hruns, hend⟩ :=
        ih (p := ⟨s', max p.peak s'.inFlight⟩) (h.snoc hmoves)
      refine ⟨events', calls', hruns, fun hleft => ?_⟩
      exact hend (Nat.le_of_lt_succ (Nat.lt_of_lt_of_le hless hleft))

/-- What is carried out for a request is a run that is over, and gives its report. -/
theorem Request.run_runs (r : Request) (storage : Storage σ) (setting : Setting σ) :
    ∃ events calls s,
      Runs storage r.owner r.limit (.initial r.codes r.cancelled setting) events calls s ∧
      s.isOver ∧ (r.run storage setting).1.report = s.report r.codes ∧
      (r.run storage setting).2 = s.setting := by
  have hleft := left_initial_le r.codes r.cancelled setting
  have hnil : Runs storage r.owner r.limit (.initial r.codes r.cancelled setting) [] []
      (⟨.initial r.codes r.cancelled setting, 0⟩ : Progress σ).state := .nil
  obtain ⟨events, calls, hruns, hend⟩ := settle_runs (12 * r.codes.length + 12) hnil
  exact ⟨events, calls, _, hruns, hend (Nat.le_trans hleft (by omega)), rfl, rfl⟩

/-- A run of the pipeline with any number of workers, in whatever order its events come and whenever
the token is cancelled, is never long and can go on until it is over. When it is over, its report
has the accounts of the ledger: each position is deleted, failed or skipped, in the order of the
request, with one deletion asked of the store that answered so, or with none. The ledger is all that
was asked of the store. Nothing is skipped unless the token was cancelled. The report collapses to
all codes of the request if every position was deleted, and only then; otherwise to the failure at
the smallest position, if there is one, and otherwise to a stop. -/
theorem report_accounts_for_every_code (r : Request) (storage : Storage σ) (setting : Setting σ)
    (hrun : Runs storage r.owner r.limit (.initial r.codes r.cancelled setting) events calls s) :
    events.length ≤ 6 * r.codes.length + 8 ∧
    (s.isOver = false → GoesOn storage r s) ∧
    (s.isOver → Performs storage r.owner setting calls s.setting ∧
      ∃ deleted failed skipped,
        Accounts r.codes calls (s.report r.codes) deleted failed skipped ∧
        (r.cancelled = false → .cancel ∉ events → skipped = []) ∧
        (∀ result, (s.report r.codes).result = .ok result ↔
          result = r.codes ∧ ∀ position < r.codes.length, position ∈ deleted) ∧
        (∀ first rest, failed = first :: rest →
          (∀ position ∈ rest, first < position) ∧ ∃ code fault,
            callsAt calls first = [⟨⟨first, code⟩, .error fault⟩] ∧
            (s.report r.codes).result = .error fault) ∧
        (failed = [] → skipped ≠ [] → (s.report r.codes).result =
          .error ⟨.cancelled, toString skipped.length ++ " deletion(s) not attempted"⟩)) := by
  have hlong := hrun.length_add_left_le
  have hleft := left_initial_le r.codes r.cancelled setting
  refine ⟨by omega, hrun.controls.goesOn, fun hover => ⟨hrun.performs, ?_⟩⟩
  obtain ⟨⟨hrunning, hanswered⟩, hall⟩ := hrun.over hover
  have haccounts := hrun.books.accounts hrunning hanswered
  refine ⟨_, _, _, haccounts, fun hnot hnever => ?_, haccounts.result_eq_ok_iff, ?_, ?_⟩
  · rw [State.skippedAt, hall hnot hnever]
    rfl
  · intro first rest hfailed
    rw [hfailed] at haccounts
    exact haccounts.result_of_failed
  · intro hfailed
    rw [hfailed] at haccounts
    exact haccounts.result_of_skipped

/-- Events that can happen one after another make a run. -/
theorem runs_of_steps (h : events.foldlM (State.step storage owner workers) s = some s') :
    ∃ calls, Runs storage owner workers s events calls s' := by
  induction events using List.reverseRecOn generalizing s' with
  | nil =>
    cases h
    exact ⟨[], .nil⟩
  | append_singleton events event ih =>
    rw [List.foldlM_append] at h
    obtain ⟨next, hbefore, hlast⟩ := Option.bind_eq_some_iff.1 h
    obtain ⟨calls, hruns⟩ := ih hbefore
    obtain ⟨_, hstep, hlast⟩ := Option.bind_eq_some_iff.1 hlast
    cases hlast
    exact ⟨_, hruns.snoc (moves_of_step hstep)⟩

/-- A store that takes too long to delete one code. -/
def slow : Storage Unit where
  name _ := "slow"
  add _ _ _ := return ()
  addBatch _ _ := return ()
  get _ := return ""
  getAll _ := return .empty
  delete code _ := if code = "b" then throw ⟨.timeout, "too slow"⟩ else return ()
  stats := return ⟨0, 0⟩
  backup := return ()
  ping := return ()

/-- A pipeline that was stopped with one job in the channel and one with the feeder. -/
def stopped : State Unit where
  waiting := [⟨3, "c"⟩]
  feeding := false
  slot := some ⟨2, "a"⟩
  closed := true
  cancelled := true
  noticed := true
  gathered := [⟨⟨1, "b"⟩, .error ⟨.timeout, "too slow"⟩⟩, ⟨⟨0, "a"⟩, .ok ()⟩]
  started := [⟨0, "a"⟩, ⟨1, "b"⟩]
  phase := .gone
  setting := ⟨(), {}⟩

/-- Two deletions run at once and answer the other way round. Between their answers the token is
cancelled: a code that is there twice is deleted at its first position and skipped at its second. -/
theorem report_accounts_for_every_code_stopped : ∃ events calls deleted failed skipped,
    Runs slow "u" 2 (.initial ["a", "b", "a", "c"] false ⟨(), {}⟩) events calls stopped ∧
    stopped.isOver ∧ .cancel ∈ events ∧
    Accounts ["a", "b", "a", "c"] calls (stopped.report ["a", "b", "a", "c"])
      deleted failed skipped ∧
    stopped.report ["a", "b", "a", "c"] =
      ⟨["a"], [⟨"b", ⟨.timeout, "too slow"⟩⟩], ["a", "c"]⟩ ∧
    (stopped.report ["a", "b", "a", "c"]).result = .error ⟨.timeout, "too slow"⟩ := by
  let request : Request := { codes := ["a", "b", "a", "c"], owner := "u", workers := 2 }
  have hsteps : [.feed, .look, .start, .feed, .look, .start, .feed, .answer 1, .cancel, .answer 0,
      .notice, .look, .gather 1, .look, .gather 0, .quit, .leave].foldlM (State.step slow "u" 2)
        (.initial ["a", "b", "a", "c"] false ⟨(), {}⟩) = some stopped := rfl
  obtain ⟨calls, hrun⟩ := runs_of_steps hsteps
  obtain ⟨-, -, hover⟩ := report_accounts_for_every_code request slow ⟨(), {}⟩ hrun
  obtain ⟨-, deleted, failed, skipped, haccounts, -⟩ := hover rfl
  have houtcomes : stopped.outcomes =
      [⟨⟨0, "a"⟩, .ok ()⟩, ⟨⟨1, "b"⟩, .error ⟨.timeout, "too slow"⟩⟩] := by
    simp [State.outcomes, stopped, List.mergeSort, List.MergeSort.Internal.splitInTwo]
  have hreport : stopped.report ["a", "b", "a", "c"] =
      ⟨["a"], [⟨"b", ⟨.timeout, "too slow"⟩⟩], ["a", "c"]⟩ := by
    rw [State.report, houtcomes]
    rfl
  exact ⟨_, calls, deleted, failed, skipped, hrun, rfl, by decide, haccounts, hreport,
    by rw [hreport]; rfl⟩

end ShortLinks.Deletion
