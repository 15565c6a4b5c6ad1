import ShortLinks.Proofs.Deletion.Completion

/-!
# No pipeline gets stuck

A pipeline that is not over waits for nothing but its deletions: where none of them runs, the feeder
or the collector can do something. The feeder itself waits only for room in a full channel from
which the collector still takes. As soon as the collector takes nothing any more, because it saw the
token cancelled, found the channel empty for good or left, the feeder can stop, whatever the channel
holds. Every event uses up some of what can still happen, so each run comes to its end, and when the
collector has left nothing is to happen but that the feeder stops.
-/

namespace ShortLinks.Deletion

variable {σ : Type} {storage : Storage σ} {owner : String} {workers : Nat} {s s' : State σ}
  {event : Event} {events : List Event} {calls : List Outcome} {codes : List String}
  {setting : Setting σ} {cancelled : Bool} {r : Request}

/-- An event can happen. -/
def Enabled (storage : Storage σ) (owner : String) (workers : Nat) (s : State σ) (event : Event) :
    Prop :=
  ∃ s', Moves storage owner workers s event s'

/-- What the feeder and the collector do not do themselves: the token is cancelled, or a deletion
answers. -/
def Event.FromOutside : Event → Prop
  | .cancel | .answer _ => True
  | _ => False

/-- The collector still takes jobs out of the channel. -/
def State.Receives (s : State σ) : Prop :=
  s.noticed = false ∧ s.drained = false ∧ s.phase ≠ .gone

/-- A deletion that runs can answer. -/
theorem enabled_answer {job : Job} (h : job ∈ s.running) :
    Enabled storage owner workers s (.answer job.position) := by
  have hfound : (s.running.find? fun other => other.position == job.position).isSome := by
    rw [List.find?_isSome]
    exact ⟨job, h, beq_self_eq_true job.position⟩
  obtain ⟨found, hfound⟩ := Option.isSome_iff_exists.1 hfound
  exact ⟨_, .answer hfound⟩

/-- A pipeline that is not over and has no deletion running goes on by itself. -/
theorem Controls.goesOn_alone (h : Controls cancelled events s) (hover : s.isOver = false)
    (hrunning : s.running = []) :
    ∃ event, ¬event.FromOutside ∧ Enabled storage r.owner r.limit s event := by
  obtain ⟨event, -, hnot, s', hmoves⟩ : GoesOn storage r s := h.goesOn hover
  refine ⟨event, fun houtside => ?_, s', hmoves⟩
  cases hmoves with
  | cancel => exact hnot rfl
  | answer hjob =>
    rw [hrunning] at hjob
    cases hjob
  | _ => exact houtside

/-- In a pipeline that is over nothing happens but that the token is cancelled. -/
theorem Controls.eq_cancel (h : Controls cancelled events s) (hover : s.isOver)
    (henabled : Enabled storage owner workers s event) : event = .cancel := by
  obtain ⟨hgone, hstopped⟩ := isOver_iff.1 hover
  obtain ⟨⟨hrunning, -⟩, -⟩ := isDone_iff.1 (h.gone hgone).2
  obtain ⟨s', hmoves⟩ := henabled
  cases hmoves with
  | cancel => rfl
  | feed _ _ hfeeding | quit hfeeding => exact absurd (hstopped.symm.trans hfeeding) nofun
  | answer hjob =>
    rw [hrunning] at hjob
    cases hjob
  | notice hphase => exact absurd hgone hphase
  | look hphase | leave hphase | gather _ hphase | drain hphase | start _ hphase =>
    exact absurd (hgone.symm.trans hphase) nofun

/-- Once the collector takes nothing any more, a feeder at work can stop. -/
theorem Controls.enabled_quit (h : Controls cancelled events s) (hreceives : ¬s.Receives)
    (hfeeding : s.feeding) : Enabled storage owner workers s .quit := by
  have hcause : s.cancelled ∨ s.closed := by
    by_contra hnone
    rw [not_or] at hnone
    apply hreceives
    refine ⟨?_, ?_, fun hgone => hnone.2 (h.gone hgone).1⟩
    · exact Bool.eq_false_iff.2 fun hnoticed => hnone.1 (h.noticed hnoticed)
    · refine Bool.eq_false_iff.2 fun hdrained => ?_
      exact absurd ((h.drained hdrained).2.symm.trans hfeeding) nofun
  exact ⟨_, .quit hfeeding (hcause.imp_right .inl)⟩

/-- A feeder at work that can do nothing waits for room in a full channel, and the collector still
takes from it. -/
theorem Controls.feeder_waits (h : Controls cancelled events s) (hfeeding : s.feeding)
    (hfeed : ¬Enabled storage owner workers s .feed)
    (hquit : ¬Enabled storage owner workers s .quit) : s.slot ≠ none ∧ s.Receives := by
  have hreceives : s.Receives := by
    by_contra hnot
    exact hquit (h.enabled_quit hnot hfeeding)
  refine ⟨fun hslot => ?_, hreceives⟩
  have hopen : s.closed = false := Bool.eq_false_iff.2 fun hclosed => by
    obtain hnoticed | hgone := h.closed hclosed
    · exact absurd (hreceives.1.symm.trans hnoticed) nofun
    · exact hreceives.2.2 hgone
  cases hwaiting : s.waiting with
  | nil => exact hquit ⟨_, .quit hfeeding (.inr (.inr hwaiting))⟩
  | cons job waiting => exact hfeed ⟨_, .feed hwaiting hslot hfeeding hopen⟩

/-- After the collector has left, the run is over as soon as the feeder stops. -/
theorem Controls.over_of_quit (h : Controls cancelled events s) (hgone : s.phase = .gone)
    (hfeeding : s.feeding) :
    ∃ s', Moves storage owner workers s .quit s' ∧ s'.isOver := by
  refine ⟨_, .quit hfeeding (.inr (.inl (h.gone hgone).1)), ?_⟩
  exact isOver_iff.2 ⟨hgone, rfl⟩

/-- Every run can be taken to its end, and the token need not be cancelled for that. The induction
is on what can still happen, of which each event uses something up. -/
theorem Runs.finishes
    (h : Runs storage r.owner r.limit (.initial codes cancelled setting) events calls s) :
    ∃ later calls' s',
      Runs storage r.owner r.limit (.initial codes cancelled setting) (events ++ later)
        (calls ++ calls') s' ∧ s'.isOver ∧ .cancel ∉ later := by
  induction hleft : s.left using Nat.strongRecOn generalizing events calls s with
  | ind left ih =>
    cases hover : s.isOver with
    | true =>
      refine ⟨[], [], s, ?_, hover, List.not_mem_nil⟩
      rwa [List.append_nil, List.append_nil]
    | false =>
      obtain ⟨event, -, hnot, next, hmoves⟩ : GoesOn storage r s := h.controls.goesOn hover
      have hless : next.left < left := hleft ▸ hmoves.left_lt
      obtain ⟨later, calls', s', hruns, hend, hnever⟩ := ih next.left hless (h.snoc hmoves) rfl
      rw [List.append_assoc, List.append_assoc] at hruns
      refine ⟨[event] ++ later, _, s', hruns, hend, ?_⟩
      rw [List.singleton_append, List.mem_cons, not_or]
      exact ⟨hnot.symm, hnever⟩

/-- At every moment of every run, whatever the number of workers, the answers of the store, the
order of the events and the moment at which the token is cancelled:

* every deletion that runs can answer, and a pipeline that is not over and has none running goes on
  by itself;
* if the run is over, nothing happens any more but that the token is cancelled;
* every event lowers what is left to happen, which is bounded by the length of the request;
* the run can be taken to its end, also the one that is carried out;
* a feeder at work that can do nothing stands before a full channel from which the collector still
  takes; once the collector takes nothing any more, the feeder can stop;
* when the collector has left and the feeder stops, the run is over. -/
theorem never_stuck (r : Request) (storage : Storage σ) (setting : Setting σ)
    (hrun : Runs storage r.owner r.limit (.initial r.codes r.cancelled setting) events calls s) :
    ((∀ job ∈ s.running, Enabled storage r.owner r.limit s (.answer job.position)) ∧
      (s.isOver = false → s.running = [] →
        ∃ event, ¬event.FromOutside ∧ Enabled storage r.owner r.limit s event)) ∧
    (s.isOver → ∀ event, Enabled storage r.owner r.limit s event → event = .cancel) ∧
    ((∀ event s', Moves storage r.owner r.limit s event s' → s'.left < s.left) ∧
      events.length + s.left ≤ 6 * r.codes.length + 8) ∧
    ((∃ later calls' s',
        Runs storage r.owner r.limit (.initial r.codes r.cancelled setting) (events ++ later)
          (calls ++ calls') s' ∧ s'.isOver ∧ .cancel ∉ later) ∧
      ∃ events' calls' s',
        Runs storage r.owner r.limit (.initial r.codes r.cancelled setting) events' calls' s' ∧
        s'.isOver ∧ (r.run storage setting).1.report = s'.report r.codes ∧
        (r.run storage setting).2 = s'.setting) ∧
    ((s.feeding → ¬Enabled storage r.owner r.limit s .feed →
        ¬Enabled storage r.owner r.limit s .quit → s.slot ≠ none ∧ s.Receives) ∧
      (¬s.Receives → s.feeding → Enabled storage r.owner r.limit s .quit)) ∧
    (s.phase = .gone → s.feeding →
      ∃ s', Moves storage r.owner r.limit s .quit s' ∧ s'.isOver) := by
  have hcontrols := hrun.controls
  have hlong := hrun.length_add_left_le
  have hleft := left_initial_le r.codes r.cancelled setting
  refine ⟨⟨fun _ => enabled_answer, hcontrols.goesOn_alone⟩,
    fun hover _ => hcontrols.eq_cancel hover, ⟨fun _ _ => Moves.left_lt, by omega⟩,
    ⟨hrun.finishes, r.run_runs storage setting⟩,
    ⟨hcontrols.feeder_waits, hcontrols.enabled_quit⟩, hcontrols.over_of_quit⟩

/-- A pipeline whose collector has seen the cancelled token while a deletion ran, the channel was
full and the feeder had one more job. -/
def blocked : State Unit where
  waiting := [⟨2, "c"⟩]
  slot := some ⟨1, "b"⟩
  closed := true
  cancelled := true
  noticed := true
  running := [⟨0, "a"⟩]
  started := [⟨0, "a"⟩]
  setting := ⟨(), {}⟩

/-- The channel is full and nobody takes from it any more: the feeder can stop, the deletion that
runs can answer, and the run comes to its end. -/
theorem never_stuck_blocked : ∃ events calls later calls' s',
    Runs slow "u" 1 (.initial ["a", "b", "c"] false ⟨(), {}⟩) events calls blocked ∧
    .cancel ∈ events ∧ ¬blocked.Receives ∧ blocked.slot ≠ none ∧ blocked.feeding ∧
    Enabled slow "u" 1 blocked .quit ∧ Enabled slow "u" 1 blocked (.answer 0) ∧
    Runs slow "u" 1 (.initial ["a", "b", "c"] false ⟨(), {}⟩) (events ++ later) (calls ++ calls')
      s' ∧ s'.isOver := by
  let request : Request := { codes := ["a", "b", "c"], owner := "u", workers := 1 }
  have hsteps : [.feed, .look, .start, .feed, .look, .cancel, .notice].foldlM
      (State.step slow "u" 1) (.initial ["a", "b", "c"] false ⟨(), {}⟩) = some blocked := rfl
  obtain ⟨calls, hrun⟩ := runs_of_steps hsteps
  have hclosed : ¬blocked.Receives := fun h => nomatch h.1
  obtain ⟨⟨hanswer, -⟩, -, -, ⟨⟨later, calls', s', hruns, hover, -⟩, -⟩, ⟨-, hquit⟩, -⟩ :=
    never_stuck request slow ⟨(), {}⟩ hrun
  exact ⟨_, calls, later, calls', s', hrun, by decide, hclosed, nofun, rfl, hquit hclosed rfl,
    hanswer ⟨0, "a"⟩ (List.mem_singleton.2 rfl), hruns, hover⟩

end ShortLinks.Deletion
