import ShortLinks.Proofs.Deletion.Completion

/-!
# Which deletions are started

The collector takes jobs out of the channel in the order of the request, and only while there is
room. So the jobs that were started are the first ones of the request at every moment, and those that
were not are the rest. Once the collector has seen that the token is cancelled it takes nothing any
more, also not what is left in the channel. Between the moment the token is cancelled and the moment
the collector sees it, one more deletion can start: that of a collector which had looked before. What
was started is carried through, and the report has it.
-/

namespace ShortLinks.Deletion

variable {σ : Type} {storage : Storage σ} {owner : String} {workers : Nat} {s s' : State σ}
  {event : Event} {events : List Event} {calls : List Outcome} {codes : List String}
  {setting : Setting σ} {cancelled : Bool} {r : Request}

/-- There is room for a job until the queue is drained or the cancellation noticed, as long as a
worker is free. -/
theorem hasRoom_iff : s.hasRoom workers ↔
    s.drained = false ∧ s.noticed = false ∧ s.inFlight < workers := by
  simp [State.hasRoom, and_assoc]

/-- An event lets no more deletions be in flight than may be. -/
theorem Moves.inFlight_le (h : Moves storage owner workers s event s')
    (hs : s.inFlight ≤ workers) : s'.inFlight ≤ workers := by
  cases h with
  | answer hjob =>
    have hfewer := length_filter_lt_of_find? (q := fun job => job.position != _) hjob
      (by simpa using List.find?_some hjob)
    simp only [State.inFlight, List.length_append, List.length_singleton] at hs ⊢
    omega
  | @gather position outcome houtcome hphase =>
    have hfewer := List.length_filter_le
      (fun outcome : Outcome => outcome.job.position != position) s.answered
    simp only [State.inFlight] at hs ⊢
    omega
  | start hslot hphase hanswered hroom =>
    obtain ⟨-, -, hless⟩ := hasRoom_iff.1 hroom
    simp only [State.inFlight, List.length_append, List.length_singleton] at hless ⊢
    omega
  | _ => exact hs

/-- All through a run no more deletions are in flight than may be. -/
theorem Runs.inFlight_le
    (h : Runs storage owner workers (.initial codes cancelled setting) events calls s) :
    s.inFlight ≤ workers := by
  induction h with
  | nil => exact Nat.zero_le workers
  | snoc _ hmoves ih => exact hmoves.inFlight_le ih

/-- The schedule that is carried out never has more deletions in flight than may be. -/
theorem settle_peak_le (fuel : Nat) {p : Progress σ} (hpeak : p.peak ≤ r.limit)
    (hflight : p.state.inFlight ≤ r.limit) : (r.settle storage fuel p).peak ≤ r.limit := by
  induction fuel generalizing p with
  | zero => exact hpeak
  | succ fuel ih =>
    rw [Request.settle]
    split
    · exact hpeak
    · next s' hsome =>
      obtain ⟨event, -, hstep⟩ := List.exists_of_findSome?_eq_some hsome
      have hflight' : s'.inFlight ≤ r.limit := (moves_of_step hstep).inFlight_le hflight
      exact ih (Nat.max_le.2 ⟨hpeak, hflight'⟩) hflight'

/-- The jobs of a request carry its codes. -/
theorem map_code_jobs (codes : List String) : (jobs codes).map Job.code = codes := by
  rw [jobs, List.map_map]
  exact List.zipIdx_map_fst 0 codes

/-- The jobs that were started are the first ones. -/
theorem Books.started_eq_take (h : Books codes calls s) :
    s.started = (jobs codes).take s.started.length := by
  rw [← h.order, List.append_assoc, List.take_left]

/-- What a report calls skipped are the codes behind those of the jobs that were started. -/
theorem Books.skipped_eq_drop (h : Books codes calls s) :
    (s.report codes).skipped = codes.drop s.started.length := by
  have hrest : s.slot.toList ++ s.waiting = (jobs codes).drop s.started.length := by
    rw [← h.order, List.append_assoc, List.drop_left]
  rw [State.report, h.unstarted_eq, hrest, List.map_drop, map_code_jobs]

/-- Every job that was started was started by an event. -/
theorem Runs.length_started
    (h : Runs storage owner workers (.initial codes cancelled setting) events calls s) :
    s.started.length = events.count .start := by
  induction h with
  | nil => rfl
  | snoc _ hmoves ih =>
    rw [List.count_append, ← ih]
    cases hmoves <;> simp

/-- An event in a list that has one more at its end is the last one, or one before it. -/
theorem eq_append_cons_of_concat {α : Type} {l before after : List α} {a b : α}
    (h : l ++ [a] = before ++ b :: after) :
    (l = before ∧ a = b ∧ after = []) ∨ ∃ rest, after = rest ++ [a] ∧ l = before ++ b :: rest := by
  obtain rfl | ⟨rest, last, rfl⟩ := List.eq_nil_or_concat after
  · obtain ⟨hl, ha⟩ := List.append_inj' h rfl
    exact .inl ⟨hl, List.singleton_inj.1 ha, rfl⟩
  · rw [List.concat_eq_append, ← List.cons_append, ← List.append_assoc] at h
    obtain ⟨hl, ha⟩ := List.append_inj' h rfl
    obtain rfl := List.singleton_inj.1 ha
    exact .inr ⟨rest, List.concat_eq_append, hl⟩

/-- What one event brings about and all others keep holds from that event on. -/
theorem Runs.holds_after {mark : Event} {P : List Event → State σ → Prop} {first : State σ}
    (h : Runs storage owner workers first events calls s)
    (hmark : ∀ s s', Moves storage owner workers s mark s' → P [] s')
    (hkeeps : ∀ after event s s', P after s → Moves storage owner workers s event s' →
      P (after ++ [event]) s') {before after : List Event}
    (hevents : events = before ++ mark :: after) : P after s := by
  induction h generalizing after with
  | nil => simp at hevents
  | snoc _ hmoves ih =>
    obtain ⟨-, rfl, rfl⟩ | ⟨rest, rfl, hbefore⟩ := eq_append_cons_of_concat hevents
    · exact hmark _ _ hmoves
    · exact hkeeps _ _ _ _ (ih hbefore) hmoves

/-- A collector that has seen the cancelled token starts nothing. -/
theorem Moves.of_noticed (h : Moves storage owner workers s event s') (hs : s.noticed) :
    s'.noticed ∧ event ≠ .start := by
  cases h with
  | start hslot hphase hanswered hroom =>
    obtain ⟨-, hunnoticed, -⟩ := hasRoom_iff.1 hroom
    rw [hs] at hunnoticed
    cases hunnoticed
  | notice => exact ⟨rfl, nofun⟩
  | _ => exact ⟨hs, nofun⟩

/-- No deletion is started after the collector has seen the cancelled token. -/
theorem Runs.no_start_after_notice {first : State σ} {before after : List Event}
    (h : Runs storage owner workers first events calls s)
    (hevents : events = before ++ .notice :: after) : .start ∉ after := by
  have hholds : s.noticed ∧ .start ∉ after := by
    refine h.holds_after (P := fun after s => s.noticed ∧ .start ∉ after) ?_ ?_ hevents
    · intro s s' hmoves
      cases hmoves
      exact ⟨rfl, List.not_mem_nil⟩
    · intro after event s s' hbefore hmoves
      obtain ⟨hnoticed, hother⟩ := hmoves.of_noticed hbefore.1
      refine ⟨hnoticed, ?_⟩
      rw [List.mem_append, List.mem_singleton]
      exact not_or_intro hbefore.2 hother.symm
  exact hholds.2

/-- The token is cancelled, and the collector can start at most `most` deletions more: none if it
has to look at the token first. -/
structure Stopping (most : Nat) (s : State σ) : Prop where
  cancelled : s.cancelled
  looking : s.noticed = false → s.phase = .ready → most = 1

/-- Where the token is cancelled, an event leaves no more to start than there was, less what it
starts. -/
theorem Stopping.moves {most : Nat} (h : Stopping most s)
    (hmoves : Moves storage owner workers s event s') :
    ∃ left, Stopping left s' ∧ left + [event].count .start ≤ most := by
  cases hmoves with
  | cancel huncancelled =>
    rw [h.cancelled] at huncancelled
    cases huncancelled
  | notice => exact ⟨most, ⟨h.cancelled, nofun⟩, Nat.le_refl most⟩
  | look hphase hundone hnoticed =>
    refine ⟨most, ⟨h.cancelled, fun hunnoticed _ => ?_⟩, Nat.le_refl most⟩
    obtain huncancelled | hnoticed := hnoticed
    · rw [h.cancelled] at huncancelled
      cases huncancelled
    · exact absurd (hunnoticed.symm.trans hnoticed) nofun
  | start hslot hphase hanswered hroom =>
    obtain ⟨-, hunnoticed, -⟩ := hasRoom_iff.1 hroom
    have hmost := h.looking hunnoticed hphase
    exact ⟨0, ⟨h.cancelled, nofun⟩, by simp [hmost]⟩
  | gather | drain | leave => exact ⟨most, ⟨h.cancelled, nofun⟩, Nat.le_refl most⟩
  | feed | quit | answer => exact ⟨most, ⟨h.cancelled, h.looking⟩, Nat.le_refl most⟩

/-- After the token is cancelled, at most one deletion is started. -/
theorem Runs.start_after_cancel {first : State σ} {before after : List Event}
    (h : Runs storage owner workers first events calls s)
    (hevents : events = before ++ .cancel :: after) : after.count .start ≤ 1 := by
  have hholds : ∃ left, Stopping left s ∧ left + after.count .start ≤ 1 := by
    refine h.holds_after
      (P := fun after s => ∃ left, Stopping left s ∧ left + after.count .start ≤ 1) ?_ ?_ hevents
    · intro s s' hmoves
      cases hmoves
      exact ⟨1, ⟨rfl, fun _ _ => rfl⟩, Nat.le_refl 1⟩
    · intro after event s s' hbefore hmoves
      obtain ⟨most, hstopping, hmost⟩ := hbefore
      obtain ⟨left, hstopping', hleft⟩ := hstopping.moves hmoves
      refine ⟨left, hstopping', ?_⟩
      rw [List.count_append]
      omega
  obtain ⟨left, -, hleft⟩ := hholds
  omega

/-- If the token was cancelled before the run, no deletion is started. -/
theorem Runs.no_start_of_cancelled
    (h : Runs storage owner workers (.initial codes true setting) events calls s) :
    .start ∉ events := by
  have hstopping : ∃ left, Stopping left s ∧ left + events.count .start ≤ 0 := by
    induction h with
    | nil => exact ⟨0, ⟨rfl, nofun⟩, Nat.le_refl 0⟩
    | snoc _ hmoves ih =>
      obtain ⟨most, hstopping, hmost⟩ := ih
      obtain ⟨left, hstopping', hleft⟩ := hstopping.moves hmoves
      refine ⟨left, hstopping', ?_⟩
      rw [List.count_append]
      omega
  obtain ⟨left, -, hleft⟩ := hstopping
  rw [← List.count_eq_zero]
  omega

/-- When nothing runs and no answer waits, the answers are those of the jobs that were started, in
order. -/
theorem Books.map_job_outcomes (h : Books codes calls s) (hrunning : s.running = [])
    (hanswered : s.answered = []) : s.outcomes.map Outcome.job = s.started := by
  obtain ⟨-, hperm⟩ := h.outcomes_perm hrunning hanswered
  have houtcomes : (s.outcomes.map Outcome.job).Pairwise fun a b => a.position < b.position := by
    have hnodup := h.nodup_answers
    rw [hanswered] at hnodup
    have hplaces := pairwise_outcomes hnodup
    rw [List.pairwise_map] at hplaces ⊢
    exact hplaces
  have hstarted : s.started.Pairwise fun a b => a.position < b.position := by
    have hjobs : ((jobs codes).map Job.position).Pairwise (· < ·) :=
      map_position_jobs codes ▸ List.pairwise_lt_range
    rw [h.started_eq_take]
    exact (List.pairwise_map.1 hjobs).sublist (List.take_sublist _ _)
  exact hperm.eq_of_pairwise (fun _ _ _ _ hlt hgt => absurd hgt (Nat.lt_asymm hlt)) houtcomes
    hstarted

/-- The codes that a report calls deleted or failed are those of the answers. -/
theorem perm_attempted (s : State σ) (codes : List String) :
    ((s.report codes).deleted ++ (s.report codes).failed.map Failure.code).Perm
      (s.outcomes.map fun outcome => outcome.job.code) := by
  have hdeleted : (s.report codes).deleted =
      (s.outcomes.filter fun outcome => outcome.result.isOk).map fun outcome => outcome.job.code := by
    rw [← List.filterMap_eq_map, List.filterMap_filter]
    rfl
  have hfailed : (s.report codes).failed.map Failure.code =
      (s.outcomes.filter fun outcome => !outcome.result.isOk).map
        fun outcome => outcome.job.code := by
    rw [State.report, List.map_filterMap, ← List.filterMap_eq_map, List.filterMap_filter]
    congr 1
    funext outcome
    obtain ⟨job, result⟩ := outcome
    cases result <;> rfl
  rw [hdeleted, hfailed, ← List.map_append]
  exact (List.filter_append_perm _ _).map _

/-- When nothing runs and no answer waits, a report calls the codes of the jobs that were started
deleted or failed, each as often as it was started. -/
theorem Books.perm_attempted (h : Books codes calls s) (hrunning : s.running = [])
    (hanswered : s.answered = []) :
    ((s.report codes).deleted ++ (s.report codes).failed.map Failure.code).Perm
      (codes.take s.started.length) := by
  have hcodes : s.outcomes.map (fun outcome => outcome.job.code) =
      (s.outcomes.map Outcome.job).map Job.code := by
    rw [List.map_map]
    rfl
  have hperm := Deletion.perm_attempted s codes
  rw [hcodes, h.map_job_outcomes hrunning hanswered, h.started_eq_take, List.map_take,
    map_code_jobs] at hperm
  exact hperm

/-- At every moment of every run, whatever the number of workers, the order of the events and the
moment at which the token is cancelled:

* no more deletions are in flight than may be, and never more than one if `workers` is zero;
* the jobs that were started are the first ones of the request, in order, and what a report calls
  skipped is the rest of it;
* no deletion was started after the collector saw the cancelled token, at most one between the
  moment it was cancelled and then, and none if it was cancelled before the run;
* a run that is not over goes on, but not for ever, and when it is over every deletion that was
  started was asked of the store once, has its answer in the report, and nothing else has. -/
theorem deletions_start_in_order (r : Request) (storage : Storage σ) (setting : Setting σ)
    (hrun : Runs storage r.owner r.limit (.initial r.codes r.cancelled setting) events calls s) :
    (s.inFlight ≤ max r.workers 1 ∧ (r.run storage setting).1.peak ≤ max r.workers 1) ∧
    (s.started = (jobs r.codes).take s.started.length ∧
      (s.report r.codes).skipped = r.codes.drop s.started.length) ∧
    (∀ before after, events = before ++ .notice :: after → .start ∉ after) ∧
    (∀ before after, events = before ++ .cancel :: after → after.count .start ≤ 1) ∧
    (r.cancelled → .start ∉ events ∧ s.started = []) ∧
    (events.length ≤ 6 * r.codes.length + 8 ∧ (s.isOver = false → GoesOn storage r s)) ∧
    (s.isOver → s.outcomes.Perm calls ∧ s.outcomes.map Outcome.job = s.started ∧
      ((s.report r.codes).deleted ++ (s.report r.codes).failed.map Failure.code).Perm
        (r.codes.take s.started.length)) := by
  have hbooks := hrun.books
  have hlong := hrun.length_add_left_le
  have hleft := left_initial_le r.codes r.cancelled setting
  have hpeak : (r.run storage setting).1.peak ≤ max r.workers 1 :=
    settle_peak_le _ (Nat.zero_le _) (Nat.zero_le _)
  refine ⟨⟨hrun.inFlight_le, hpeak⟩, ⟨hbooks.started_eq_take, hbooks.skipped_eq_drop⟩,
    fun _ _ => hrun.no_start_after_notice, fun _ _ => hrun.start_after_cancel,
    fun hcancelled => ?_, ⟨by omega, hrun.controls.goesOn⟩, fun hover => ?_⟩
  · rw [hcancelled] at hrun
    have hnever := hrun.no_start_of_cancelled
    refine ⟨hnever, List.eq_nil_of_length_eq_zero ?_⟩
    rw [hrun.length_started]
    exact List.count_eq_zero.2 hnever
  · obtain ⟨⟨hrunning, hanswered⟩, -⟩ := hrun.over hover
    obtain ⟨hcalls, -⟩ := hbooks.outcomes_perm hrunning hanswered
    exact ⟨hcalls, hbooks.map_job_outcomes hrunning hanswered,
      hbooks.perm_attempted hrunning hanswered⟩

/-- A pipeline that was stopped after its collector had looked at the token. -/
def overtaken : State Unit where
  waiting := [⟨2, "c"⟩]
  feeding := false
  slot := none
  closed := true
  cancelled := true
  noticed := true
  gathered := [⟨⟨0, "a"⟩, .ok ()⟩, ⟨⟨1, "b"⟩, .error ⟨.timeout, "too slow"⟩⟩]
  started := [⟨0, "a"⟩, ⟨1, "b"⟩]
  phase := .gone
  setting := ⟨(), {}⟩

/-- With zero workers one deletion runs at a time. The token is cancelled when the collector has
looked at it and not yet taken the second code: this code is still deleted, the third is not. -/
theorem deletions_start_in_order_overtaken : ∃ events calls before after,
    Runs slow "u" (max 0 1) (.initial ["a", "b", "c"] false ⟨(), {}⟩) events calls overtaken ∧
    events = before ++ .cancel :: after ∧ .start ∈ after ∧ after.count .start ≤ 1 ∧
    overtaken.isOver ∧ overtaken.started = (jobs ["a", "b", "c"]).take 2 ∧
    (overtaken.report ["a", "b", "c"]).skipped = ["c"] ∧
    ((overtaken.report ["a", "b", "c"]).deleted ++
      (overtaken.report ["a", "b", "c"]).failed.map Failure.code).Perm ["a", "b"] := by
  let request : Request := { codes := ["a", "b", "c"], owner := "u", workers := 0 }
  let before : List Event := [.feed, .look, .start, .feed, .look, .answer 0, .gather 0, .look]
  let after : List Event := [.start, .quit, .notice, .answer 1, .look, .gather 1, .leave]
  have hsteps : (before ++ .cancel :: after).foldlM (State.step slow "u" (max 0 1))
      (.initial ["a", "b", "c"] false ⟨(), {}⟩) = some overtaken := rfl
  obtain ⟨calls, hrun⟩ := runs_of_steps hsteps
  obtain ⟨-, ⟨hstarted, hskipped⟩, -, hcancel, -, -, hover⟩ :=
    deletions_start_in_order request slow ⟨(), {}⟩ hrun
  obtain ⟨-, -, hattempted⟩ := hover rfl
  exact ⟨_, calls, before, after, hrun, rfl, by decide, hcancel before after rfl, rfl, hstarted,
    hskipped, hattempted⟩

end ShortLinks.Deletion
