import ShortLinks.Deletion.Schedule

/-!
# Runs of the deletion pipeline

A run is any sequence of events, each of which could happen when it did. Besides the states it
goes through a run has a ledger: the deletions that the store was asked for, in order, with what
each of them answered. No run is longer than a bound that depends on the number of jobs alone, for
each event uses up some of what can still happen.
-/

namespace ShortLinks.Deletion

variable {σ : Type} {storage : Storage σ} {owner : String} {workers : Nat} {s s' : State σ}
  {event : Event} {events : List Event} {calls : List Outcome}

/-- What the events do, and when they can happen. -/
inductive Moves (storage : Storage σ) (owner : String) (workers : Nat) (s : State σ) :
    Event → State σ → Prop
  | cancel (huncancelled : s.cancelled = false) :
    Moves storage owner workers s .cancel { s with cancelled := true }
  | feed {job : Job} {waiting : List Job} (hwaiting : s.waiting = job :: waiting)
      (hslot : s.slot = none) (hfeeding : s.feeding) (hopen : s.closed = false) :
    Moves storage owner workers s .feed { s with waiting, slot := some job }
  | quit (hfeeding : s.feeding) (hcause : s.cancelled ∨ s.closed ∨ s.waiting = []) :
    Moves storage owner workers s .quit { s with feeding := false }
  | answer {position : Nat} {job : Job}
      (hjob : s.running.find? (fun job => job.position == position) = some job) :
    Moves storage owner workers s (.answer position) { s with
      running := s.running.filter fun job => job.position != position
      answered := s.answered ++ [⟨job, ((storage.delete job.code owner).run s.setting).1⟩]
      setting := ((storage.delete job.code owner).run s.setting).2 }
  | notice (hphase : s.phase ≠ .gone) (hcancelled : s.cancelled) (hunnoticed : s.noticed = false) :
    Moves storage owner workers s .notice
      { s with noticed := true, closed := true, phase := .looking }
  | look (hphase : s.phase = .looking) (hundone : s.isDone = false)
      (hnoticed : s.cancelled = false ∨ s.noticed) :
    Moves storage owner workers s .look { s with phase := .ready }
  | gather {position : Nat} {outcome : Outcome}
      (houtcome : s.answered.find? (fun outcome => outcome.job.position == position) = some outcome)
      (hphase : s.phase = .ready) :
    Moves storage owner workers s (.gather position) { s with
      answered := s.answered.filter fun outcome => outcome.job.position != position
      gathered := s.gathered ++ [outcome]
      phase := .looking }
  | start {job : Job} (hslot : s.slot = some job) (hphase : s.phase = .ready)
      (hanswered : s.answered = []) (hroom : s.hasRoom workers) :
    Moves storage owner workers s .start { s with
      slot := none
      running := s.running ++ [job]
      started := s.started ++ [job]
      phase := .looking }
  | drain (hphase : s.phase = .ready) (hanswered : s.answered = []) (hroom : s.hasRoom workers)
      (hslot : s.slot = none) (hfeeding : s.feeding = false) :
    Moves storage owner workers s .drain { s with drained := true, phase := .looking }
  | leave (hphase : s.phase = .looking) (hdone : s.isDone) :
    Moves storage owner workers s .leave { s with closed := true, phase := .gone }

/-- Whatever a step gives, it is what the event does. -/
theorem moves_of_step (h : s.step storage owner workers event = some s') :
    Moves storage owner workers s event s' := by
  cases event with
  | cancel =>
    simp only [State.step] at h
    split at h <;> cases h
    next hcancelled => exact .cancel (Bool.eq_false_iff.2 hcancelled)
  | feed =>
    simp only [State.step] at h
    split at h
    · next job waiting hwaiting hslot =>
      split at h <;> cases h
      next hguard =>
        simp only [Bool.and_eq_true, Bool.not_eq_true'] at hguard
        exact .feed hwaiting hslot hguard.1 hguard.2
    · cases h
  | quit =>
    simp only [State.step] at h
    split at h <;> cases h
    next hguard =>
      simp only [Bool.and_eq_true, Bool.or_eq_true, List.isEmpty_iff, or_assoc] at hguard
      exact .quit hguard.1 hguard.2
  | answer position =>
    obtain ⟨job, hjob, h⟩ := Option.bind_eq_some_iff.1 h
    cases h
    exact .answer hjob
  | notice =>
    simp only [State.step] at h
    split at h <;> cases h
    next hguard => exact .notice hguard.1 hguard.2.1 (by simpa using hguard.2.2)
  | look =>
    simp only [State.step] at h
    split at h <;> cases h
    next hguard => exact .look hguard.1 (by simpa using hguard.2.1) (by simpa using hguard.2.2)
  | gather position =>
    obtain ⟨outcome, houtcome, h⟩ := Option.bind_eq_some_iff.1 h
    split at h <;> cases h
    next hphase => exact .gather houtcome hphase
  | start =>
    obtain ⟨job, hslot, h⟩ := Option.bind_eq_some_iff.1 h
    split at h <;> cases h
    next hguard => exact .start hslot hguard.1 (List.isEmpty_iff.1 hguard.2.1) hguard.2.2
  | drain =>
    simp only [State.step] at h
    split at h <;> cases h
    next hguard =>
      obtain ⟨hphase, hanswered, hroom, hslot, hfeeding⟩ := hguard
      exact .drain hphase (List.isEmpty_iff.1 hanswered) hroom (Option.isNone_iff_eq_none.1 hslot)
        (by simpa using hfeeding)
  | leave =>
    simp only [State.step] at h
    split at h <;> cases h
    next hguard => exact .leave hguard.1 hguard.2

/-- What an event can do, a step gives. -/
theorem step_of_moves (h : Moves storage owner workers s event s') :
    s.step storage owner workers event = some s' := by
  cases h with
  | cancel hcancelled => simp [State.step, hcancelled]
  | feed hwaiting hslot hfeeding hopen => simp [State.step, hwaiting, hslot, hfeeding, hopen]
  | quit hfeeding hcause =>
    have hguard : (s.cancelled || s.closed || s.waiting.isEmpty) = true := by
      simpa [or_assoc] using hcause
    simp [State.step, hfeeding, hguard]
  | answer hjob =>
    rw [State.step, hjob]
    rfl
  | notice hphase hcancelled hunnoticed => simp [State.step, hphase, hcancelled, hunnoticed]
  | look hphase hundone hnoticed => simp [State.step, hphase, hundone, hnoticed]
  | gather houtcome hphase => simp [State.step, houtcome, hphase]
  | start hslot hphase hanswered hroom => simp [State.step, hslot, hphase, hanswered, hroom]
  | drain hphase hanswered hroom hslot hfeeding =>
    simp [State.step, hphase, hanswered, hroom, hslot, hfeeding]
  | leave hphase hdone => simp [State.step, hphase, hdone]

/-- An event happens with exactly what it does, when it can happen. -/
theorem step_eq_some_iff : s.step storage owner workers event = some s' ↔
    Moves storage owner workers s event s' := ⟨moves_of_step, step_of_moves⟩

/-- The deletion that the store is asked for when an event happens, with its answer. -/
def State.asked (storage : Storage σ) (owner : String) (s : State σ) : Event → List Outcome
  | .answer position => (s.running.find? fun job => job.position == position).toList.map fun job =>
    ⟨job, ((storage.delete job.code owner).run s.setting).1⟩
  | _ => []

/-- A run of the pipeline: its events and its ledger. -/
inductive Runs (storage : Storage σ) (owner : String) (workers : Nat) (s : State σ) :
    List Event → List Outcome → State σ → Prop
  | nil : Runs storage owner workers s [] [] s
  | snoc {events : List Event} {calls : List Outcome} {event : Event} {s' s'' : State σ}
      (h : Runs storage owner workers s events calls s')
      (hmoves : Moves storage owner workers s' event s'') :
    Runs storage owner workers s (events ++ [event]) (calls ++ s'.asked storage owner event) s''

/-- Deletions that the store was asked for one after another, each with what it answered then. -/
inductive Performs (storage : Storage σ) (owner : String) (setting : Setting σ) :
    List Outcome → Setting σ → Prop
  | nil : Performs storage owner setting [] setting
  | snoc {calls : List Outcome} {next : Setting σ} (job : Job)
      (h : Performs storage owner setting calls next) :
    Performs storage owner setting
      (calls ++ [⟨job, ((storage.delete job.code owner).run next).1⟩])
      ((storage.delete job.code owner).run next).2

/-- The ledger of a run says all that happens to the store. -/
theorem Runs.performs (h : Runs storage owner workers s events calls s') :
    Performs storage owner s.setting calls s'.setting := by
  induction h with
  | nil => exact .nil
  | snoc _ hmoves ih =>
    cases hmoves with
    | answer hjob =>
      rw [State.asked, hjob]
      exact .snoc _ ih
    | _ =>
      rw [State.asked, List.append_nil]
      · exact ih
      · nofun

/-- How many events can still happen, at most. -/
def State.left (s : State σ) : Nat :=
  6 * s.waiting.length + 5 * s.slot.toList.length + 3 * s.running.length + 2 * s.answered.length +
    s.feeding.toNat + (!s.cancelled).toNat + 2 * (!s.noticed).toNat + 2 * (!s.drained).toNat +
    match s.phase with
    | .looking => 2
    | .ready => 1
    | .gone => 0

/-- Taking out what was found leaves fewer. -/
theorem length_filter_lt_of_find? {α : Type} {p q : α → Bool} {l : List α} {a : α}
    (h : l.find? p = some a) (hq : q a = false) : (l.filter q).length < l.length :=
  List.length_filter_lt_length_iff_exists.2 ⟨a, List.mem_of_find?_eq_some h, by simp [hq]⟩

/-- Every event uses something up. -/
theorem Moves.left_lt (h : Moves storage owner workers s event s') : s'.left < s.left := by
  cases h with
  | cancel hcancelled => simp [State.left, hcancelled]
  | feed hwaiting hslot _ _ =>
    simp only [State.left, hwaiting, hslot, List.length_cons, Option.toList_some, Option.toList_none,
      List.length_nil]
    omega
  | quit hfeeding _ => simp [State.left, hfeeding]
  | answer hjob =>
    have hfewer := length_filter_lt_of_find? (q := fun job => job.position != _) hjob
      (by simpa using List.find?_some hjob)
    simp only [State.left, List.length_append, List.length_singleton]
    omega
  | notice hphase _ hunnoticed =>
    cases hwhere : s.phase with
    | gone => exact absurd hwhere hphase
    | looking => simp [State.left, hunnoticed, hwhere]
    | ready =>
      simp only [State.left, hunnoticed, hwhere, Bool.not_false, Bool.not_true, Bool.toNat_true,
        Bool.toNat_false]
      omega
  | look hphase _ _ => simp [State.left, hphase]
  | gather houtcome hphase =>
    have hfewer := length_filter_lt_of_find? (q := fun outcome => outcome.job.position != _) houtcome
      (by simpa using List.find?_some houtcome)
    simp only [State.left, hphase]
    omega
  | start hslot hphase _ _ =>
    simp only [State.left, hslot, hphase, List.length_append, List.length_singleton,
      Option.toList_some, Option.toList_none, List.length_nil]
    omega
  | drain hphase _ hroom _ _ =>
    have hundrained : s.drained = false := by simp_all [State.hasRoom]
    simp [State.left, hphase, hundrained]
  | leave hphase _ => simp [State.left, hphase]

/-- What a run took and what is left were there at its beginning. -/
theorem Runs.length_add_left_le (h : Runs storage owner workers s events calls s') :
    events.length + s'.left ≤ s.left := by
  induction h with
  | nil => simp
  | snoc _ hmoves ih =>
    have hless := hmoves.left_lt
    rw [List.length_append, List.length_singleton]
    omega

/-- There is a job for each code. -/
theorem length_jobs (codes : List String) : (jobs codes).length = codes.length := by
  rw [jobs, List.length_map, List.length_zipIdx]

/-- What is left to do at the beginning grows with the number of codes alone. -/
theorem left_initial_le (codes : List String) (cancelled : Bool) (setting : Setting σ) :
    (State.initial codes cancelled setting).left ≤ 6 * codes.length + 8 := by
  have hcancelled : (!cancelled).toNat ≤ 1 := Bool.toNat_le _
  simp only [State.left, State.initial, length_jobs, Option.toList_none, List.length_nil,
    Bool.toNat_true, Bool.not_false]
  omega

end ShortLinks.Deletion
