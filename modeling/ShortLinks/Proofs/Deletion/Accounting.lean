import Mathlib.Data.List.Forall2
import Mathlib.Data.List.Nodup
import ShortLinks.Proofs.Deletion.Steps

/-!
# Every code is accounted for

Every job of a request is at each moment in one place: started, in the channel, or still with the
feeder, in this order. What was started is running or has answered, and an answer is there for each
entry of the ledger. So at the end the positions of a request fall into three parts: deleted and
failed, where the ledger has one entry that says so, and skipped, where it has none. Unless the
token was cancelled, nothing is skipped.
-/

namespace ShortLinks.Deletion

variable {σ : Type} {storage : Storage σ} {owner : String} {workers : Nat} {s s' : State σ}
  {event : Event} {events : List Event} {calls : List Outcome} {codes : List String}
  {setting : Setting σ}

section Lists

variable {α : Type} {place : α → Nat} {l : List α} {a : α} {position : Nat}

/-- Where places are distinct, what is found at a place is all that is there. -/
theorem filter_eq_singleton (hplaces : (l.map place).Nodup) (h : a ∈ l) :
    l.filter (fun b => place b == place a) = [a] := by
  induction l with
  | nil => cases h
  | cons b rest ih =>
    rw [List.map_cons, List.nodup_cons] at hplaces
    obtain rfl | hrest := List.mem_cons.1 h
    · have hothers : rest.filter (fun b => place b == place a) = [] := by
        rw [List.filter_eq_nil_iff]
        intro b hb hsame
        exact hplaces.1 (List.mem_map.2 ⟨b, hb, beq_iff_eq.1 hsame⟩)
      rw [List.filter_cons_of_pos (by simp), hothers]
    · have hne : place b ≠ place a := fun hsame =>
        hplaces.1 (List.mem_map.2 ⟨a, hrest, hsame.symm⟩)
      rw [List.filter_cons_of_neg (by simpa using hne), ih hplaces.2 hrest]

/-- Where places are distinct, what is found at a place can be put in front of all the rest. -/
theorem perm_of_find? (hplaces : (l.map place).Nodup)
    (h : l.find? (fun b => place b == position) = some a) :
    l.Perm (a :: l.filter fun b => place b != position) := by
  obtain rfl : place a = position := by simpa using List.find?_some h
  have hsplit := List.filter_append_perm (fun b => place b == place a) l
  rw [filter_eq_singleton hplaces (List.mem_of_find?_eq_some h)] at hsplit
  exact hsplit.symm

/-- Some elements, and what is told of each of them, correspond one by one. -/
theorem forall₂_filterMap {β γ : Type} {p : α → Bool} {tell : α → Option β} {name : α → γ}
    {R : γ → β → Prop} (h : ∀ a ∈ l, p a = true → ∃ b, tell a = some b ∧ R (name a) b)
    (hnot : ∀ a ∈ l, p a = false → tell a = none) :
    List.Forall₂ R ((l.filter p).map name) (l.filterMap tell) := by
  induction l with
  | nil => exact .nil
  | cons a rest ih =>
    have hrest := ih (fun b hb => h b (List.mem_cons_of_mem a hb))
      (fun b hb => hnot b (List.mem_cons_of_mem a hb))
    cases hp : p a with
    | true =>
      obtain ⟨b, hb, hR⟩ := h a List.mem_cons_self hp
      rw [List.filter_cons_of_pos hp, List.filterMap_cons_some hb]
      exact .cons hR hrest
    | false =>
      rw [List.filter_cons_of_neg (by simp [hp]),
        List.filterMap_cons_none (hnot a List.mem_cons_self hp)]
      exact hrest

end Lists

/-- The jobs have the positions from the first to the last. -/
theorem map_position_jobs (codes : List String) :
    (jobs codes).map Job.position = List.range codes.length := by
  rw [jobs, List.map_map, List.range_eq_range']
  exact List.zipIdx_map_snd 0 codes

/-- A job carries the code at its position. -/
theorem getElem?_of_mem_jobs {job : Job} (h : job ∈ jobs codes) :
    codes[job.position]? = some job.code := by
  obtain ⟨⟨code, position⟩, hmem, rfl⟩ := List.mem_map.1 h
  exact List.mem_zipIdx_iff_getElem?.1 hmem

/-- No two jobs have one position. -/
theorem nodup_position_jobs (codes : List String) : ((jobs codes).map Job.position).Nodup :=
  map_position_jobs codes ▸ List.nodup_range

/-- Where the jobs of a request are, and what the ledger has of them. -/
structure Books (codes : List String) (calls : List Outcome) (s : State σ) : Prop where
  order : s.started ++ s.slot.toList ++ s.waiting = jobs codes
  started : (s.running ++ (s.answered ++ s.gathered).map Outcome.job).Perm s.started
  calls : (s.answered ++ s.gathered).Perm calls

/-- The books are in order before anything has happened. -/
theorem books_initial (codes : List String) (cancelled : Bool) (setting : Setting σ) :
    Books codes [] (.initial codes cancelled setting) where
  order := rfl
  started := .nil
  calls := .nil

/-- No position is started twice. -/
theorem Books.nodup_started (h : Books codes calls s) :
    (s.started.map Job.position).Nodup := by
  have hjobs := nodup_position_jobs codes
  rw [← h.order, List.append_assoc, List.map_append] at hjobs
  exact hjobs.of_append_left

/-- No position is twice among those with a worker, answered or gathered. -/
theorem Books.nodup_all (h : Books codes calls s) :
    ((s.running ++ (s.answered ++ s.gathered).map Outcome.job).map Job.position).Nodup :=
  (h.started.map Job.position).nodup_iff.2 h.nodup_started

/-- No position is with two workers. -/
theorem Books.nodup_running (h : Books codes calls s) :
    (s.running.map Job.position).Nodup := by
  have hall := h.nodup_all
  rw [List.map_append] at hall
  exact hall.of_append_left

/-- No position has two answers. -/
theorem Books.nodup_answers (h : Books codes calls s) :
    ((s.answered ++ s.gathered).map fun outcome => outcome.job.position).Nodup := by
  have hall := h.nodup_all
  rw [List.map_append, List.map_map] at hall
  exact hall.of_append_right

/-- No position has two answers that wait to be gathered. -/
theorem Books.nodup_answered (h : Books codes calls s) :
    (s.answered.map fun outcome => outcome.job.position).Nodup := by
  have hall := h.nodup_answers
  rw [List.map_append] at hall
  exact hall.of_append_left

/-- An event keeps the books, if its call is entered in the ledger. -/
theorem Books.moves (h : Books codes calls s) (hmoves : Moves storage owner workers s event s') :
    Books codes (calls ++ s.asked storage owner event) s' := by
  cases hmoves with
  | cancel | quit | notice | look | drain | leave =>
    exact ⟨h.order, h.started, by simpa [State.asked] using h.calls⟩
  | feed hwaiting hslot =>
    refine ⟨?_, h.started, by simpa [State.asked] using h.calls⟩
    have horder := h.order
    rw [hwaiting, hslot] at horder
    simpa using horder
  | answer hjob =>
    have hrunning := perm_of_find? h.nodup_running hjob
    refine ⟨h.order, .trans ?_ h.started, ?_⟩
    · refine .trans ?_ (hrunning.append_right _).symm
      rw [List.append_assoc, List.map_append, List.singleton_append, List.map_cons,
        List.map_append, ← List.append_assoc, ← List.append_assoc, List.cons_append]
      exact List.perm_middle
    · rw [State.asked, hjob, List.append_assoc]
      exact (List.perm_middle.trans (h.calls.cons _)).trans (List.perm_append_singleton _ _).symm
  | @gather position outcome houtcome =>
    have hanswered := perm_of_find? h.nodup_answered houtcome
    have hsame : ((s.answered.filter fun outcome => outcome.job.position != position) ++
        (s.gathered ++ [outcome])).Perm (s.answered ++ s.gathered) := by
      rw [← List.append_assoc]
      exact (List.perm_append_singleton _ _).trans (hanswered.append_right s.gathered).symm
    refine ⟨h.order, ((hsame.map Outcome.job).append_left _).trans h.started, ?_⟩
    rw [State.asked, List.append_nil]
    · exact hsame.trans h.calls
    · rintro _ ⟨⟩
  | start hslot =>
    refine ⟨?_, ?_, by simpa [State.asked] using h.calls⟩
    · have horder := h.order
      rw [hslot] at horder
      simpa using horder
    · rw [List.append_assoc, List.singleton_append]
      exact (List.perm_middle.trans (h.started.cons _)).trans (List.perm_append_singleton _ _).symm

/-- The books are kept all through a run. -/
theorem Runs.books {cancelled : Bool}
    (h : Runs storage owner workers (.initial codes cancelled setting) events calls s) :
    Books codes calls s := by
  induction h with
  | nil => exact books_initial codes cancelled setting
  | snoc _ hmoves ih => exact ih.moves hmoves

/-- What the parties know of each other and of the token. -/
structure Controls (cancelled : Bool) (events : List Event) (s : State σ) : Prop where
  cancelled : s.cancelled → cancelled ∨ .cancel ∈ events
  noticed : s.noticed → s.cancelled
  stopped : s.feeding = false → s.cancelled ∨ s.waiting = []
  drained : s.drained → s.slot = none ∧ s.feeding = false
  closed : s.closed → s.noticed ∨ s.phase = .gone
  gone : s.phase = .gone → s.closed ∧ s.isDone
  ready : s.phase = .ready → s.isDone = false

/-- At the beginning nobody has stopped, and a run can be cancelled from the start. -/
theorem controls_initial (codes : List String) (cancelled : Bool) (setting : Setting σ) :
    Controls cancelled [] (.initial codes cancelled setting) where
  cancelled h := .inl h
  noticed := nofun
  stopped := nofun
  drained := nofun
  closed := nofun
  gone := nofun
  ready := nofun

/-- A run is done when nothing is under way or waits to be gathered, and no more is started. -/
theorem isDone_iff : s.isDone ↔
    (s.running = [] ∧ s.answered = []) ∧ (s.noticed ∨ s.drained) := by
  simp [State.isDone, State.inFlight, Nat.add_eq_zero_iff]

/-- Where there is room for a job, the queue was not found empty and closed. -/
theorem State.undrained_of_hasRoom (h : s.hasRoom workers) : s.drained = false := by
  simp only [hasRoom, Bool.and_eq_true, Bool.not_eq_true'] at h
  exact h.1.1

/-- An event keeps what the parties know. -/
theorem Controls.moves {cancelled : Bool} (h : Controls cancelled events s)
    (hmoves : Moves storage owner workers s event s') :
    Controls cancelled (events ++ [event]) s' := by
  have hcancelled (hs : s.cancelled) : cancelled ∨ .cancel ∈ events ++ [event] :=
    (h.cancelled hs).imp_right (List.mem_append_left _)
  have hclosed (hs : s.closed) (hphase : s.phase ≠ .gone) : s.noticed :=
    (h.closed hs).resolve_right hphase
  cases hmoves with
  | cancel =>
    exact ⟨fun _ => .inr (by simp), fun _ => rfl, fun _ => .inl rfl, h.drained, h.closed, h.gone,
      h.ready⟩
  | feed hwaiting hslot hfeeding hopen =>
    refine ⟨hcancelled, h.noticed, fun hstopped => ?_, fun hdrained => ?_, h.closed, h.gone,
      h.ready⟩
    · exact absurd (hstopped.symm.trans hfeeding) nofun
    · exact absurd ((h.drained hdrained).2.symm.trans hfeeding) nofun
  | quit hfeeding hcause =>
    refine ⟨hcancelled, h.noticed, fun _ => ?_, fun hdrained => ⟨(h.drained hdrained).1, rfl⟩,
      h.closed, h.gone, h.ready⟩
    obtain hcancelled | hs | hempty := hcause
    · exact .inl hcancelled
    · obtain hnoticed | hphase := h.closed hs
      · exact .inl (h.noticed hnoticed)
      · obtain ⟨-, hnoticed | hdrained⟩ := isDone_iff.1 (h.gone hphase).2
        · exact .inl (h.noticed hnoticed)
        · exact absurd ((h.drained hdrained).2.symm.trans hfeeding) nofun
    · exact .inr hempty
  | answer hjob =>
    refine ⟨hcancelled, h.noticed, h.stopped, h.drained, h.closed, fun hphase => ?_, fun _ => ?_⟩
    · obtain ⟨⟨hrunning, -⟩, -⟩ := isDone_iff.1 (h.gone hphase).2
      rw [hrunning] at hjob
      cases hjob
    · rw [Bool.eq_false_iff, Ne, isDone_iff]
      rintro ⟨⟨-, hanswered⟩, -⟩
      exact absurd hanswered (by simp)
  | notice hphase hcancelled' =>
    exact ⟨hcancelled, fun _ => hcancelled', h.stopped, h.drained, fun _ => .inl rfl, nofun, nofun⟩
  | look hphase hundone =>
    exact ⟨hcancelled, h.noticed, h.stopped, h.drained,
      fun hs => .inl (hclosed hs (by simp [hphase])), nofun, fun _ => hundone⟩
  | gather houtcome hphase =>
    exact ⟨hcancelled, h.noticed, h.stopped, h.drained,
      fun hs => .inl (hclosed hs (by simp [hphase])), nofun, nofun⟩
  | start hslot hphase hanswered hroom =>
    have hundrained := State.undrained_of_hasRoom hroom
    exact ⟨hcancelled, h.noticed, h.stopped,
      fun hdrained => absurd (hundrained.symm.trans hdrained) nofun,
      fun hs => .inl (hclosed hs (by simp [hphase])), nofun, nofun⟩
  | drain hphase hanswered hroom hslot hfeeding =>
    exact ⟨hcancelled, h.noticed, h.stopped, fun _ => ⟨hslot, hfeeding⟩,
      fun hs => .inl (hclosed hs (by simp [hphase])), nofun, nofun⟩
  | leave hphase hdone =>
    exact ⟨hcancelled, h.noticed, h.stopped, h.drained, fun _ => .inr rfl, fun _ => ⟨rfl, hdone⟩,
      nofun⟩

/-- The parties know what they know all through a run. -/
theorem Runs.controls {cancelled : Bool}
    (h : Runs storage owner workers (.initial codes cancelled setting) events calls s) :
    Controls cancelled events s := by
  induction h with
  | nil => exact controls_initial codes cancelled setting
  | snoc _ hmoves ih => exact ih.moves hmoves

/-- What the ledger has for a position. -/
def callsAt (calls : List Outcome) (position : Nat) : List Outcome :=
  calls.filter fun outcome => outcome.job.position == position

/-- A report with the positions that its three lists are about. Each position of the request is one
of them, once, and every list has its positions in order. For a position that was deleted or failed
the ledger has one call, with this position's code and what the report says of it, and none for one
that was skipped. -/
structure Accounts (codes : List String) (calls : List Outcome) (report : Report)
    (deleted failed skipped : List Nat) : Prop where
  partition : (deleted ++ failed ++ skipped).Perm (List.range codes.length)
  ordered : deleted.Pairwise (· < ·) ∧ failed.Pairwise (· < ·) ∧ skipped.Pairwise (· < ·)
  deleted : List.Forall₂ (fun position code => codes[position]? = some code ∧
    callsAt calls position = [⟨⟨position, code⟩, .ok ()⟩]) deleted report.deleted
  failed : List.Forall₂ (fun position failure => codes[position]? = some failure.code ∧
    callsAt calls position = [⟨⟨position, failure.code⟩, .error failure.fault⟩])
      failed report.failed
  skipped : List.Forall₂ (fun position code => codes[position]? = some code ∧
    callsAt calls position = []) skipped report.skipped

/-- The jobs that were not started are those in the channel and with the feeder. -/
theorem Books.unstarted_eq (h : Books codes calls s) :
    s.unstarted codes = s.slot.toList ++ s.waiting := by
  have hjobs := nodup_position_jobs codes
  rw [State.unstarted, ← h.order, List.append_assoc, List.filter_append]
  rw [← h.order, List.append_assoc, List.map_append] at hjobs
  have hstarted : s.started.filter
      (fun job => !s.started.any fun other => other.position == job.position) = [] := by
    rw [List.filter_eq_nil_iff]
    intro job hjob
    simpa using ⟨job, hjob, rfl⟩
  have hrest : (s.slot.toList ++ s.waiting).filter
      (fun job => !s.started.any fun other => other.position == job.position) =
        s.slot.toList ++ s.waiting := by
    rw [List.filter_eq_self]
    intro job hjob
    rw [Bool.not_eq_true', List.any_eq_false]
    intro other hother hsame
    exact hjobs.disjoint (List.mem_map.2 ⟨other, hother, rfl⟩)
      (List.mem_map.2 ⟨job, hjob, (beq_iff_eq.1 hsame).symm⟩)
  rw [hstarted, hrest, List.nil_append]

/-- The answers come in the order of their positions. -/
theorem pairwise_outcomes
    (h : (s.gathered.map fun outcome => outcome.job.position).Nodup) :
    (s.outcomes.map fun outcome => outcome.job.position).Pairwise (· < ·) := by
  have hnodup : (s.outcomes.map fun outcome => outcome.job.position).Nodup :=
    ((List.mergeSort_perm _ _).map _).nodup_iff.2 h
  have hsorted : s.outcomes.Pairwise fun a b => decide (a.job.position ≤ b.job.position) = true :=
    List.pairwise_mergeSort (by simpa using fun _ _ _ => Nat.le_trans)
      (by simpa using fun _ _ => Nat.le_total _ _) s.gathered
  rw [List.Nodup, List.pairwise_map] at hnodup
  rw [List.pairwise_map]
  exact hsorted.imp₂ (fun _ _ hle hne => Nat.lt_of_le_of_ne (of_decide_eq_true hle) hne) hnodup

/-- When nothing runs and no answer waits, what was gathered is the ledger. -/
theorem Books.outcomes_perm (h : Books codes calls s) (hrunning : s.running = [])
    (hanswered : s.answered = []) :
    s.outcomes.Perm calls ∧ (s.outcomes.map Outcome.job).Perm s.started := by
  have hcalls := h.calls
  have hstarted := h.started
  rw [hanswered, List.nil_append] at hcalls hstarted
  rw [hrunning, List.nil_append] at hstarted
  exact ⟨(List.mergeSort_perm _ _).trans hcalls, ((List.mergeSort_perm _ _).map _).trans hstarted⟩

/-- What an answer says is what the ledger has for its position. -/
theorem Books.callsAt_eq (h : Books codes calls s) {outcome : Outcome} (hcall : outcome ∈ calls) :
    codes[outcome.job.position]? = some outcome.job.code ∧
      callsAt calls outcome.job.position = [outcome] := by
  have hnodup : (calls.map fun outcome => outcome.job.position).Nodup :=
    (h.calls.map _).nodup_iff.1 h.nodup_answers
  have hstarted : outcome.job ∈ s.started := h.started.mem_iff.1 <|
    List.mem_append_right _ (List.mem_map.2 ⟨outcome, h.calls.mem_iff.2 hcall, rfl⟩)
  have hjob : outcome.job ∈ jobs codes := by
    rw [← h.order, List.append_assoc]
    exact List.mem_append_left _ hstarted
  exact ⟨getElem?_of_mem_jobs hjob, filter_eq_singleton hnodup hcall⟩

/-- The ledger has nothing for a job that was not started. -/
theorem Books.callsAt_eq_nil (h : Books codes calls s) {job : Job} (hjob : job ∈ s.unstarted codes) :
    codes[job.position]? = some job.code ∧ callsAt calls job.position = [] := by
  obtain ⟨hjob, hunstarted⟩ := List.mem_filter.1 hjob
  refine ⟨getElem?_of_mem_jobs hjob, ?_⟩
  rw [callsAt, List.filter_eq_nil_iff]
  intro outcome hcall hsame
  have hstarted : outcome.job ∈ s.started := h.started.mem_iff.1 <|
    List.mem_append_right _ (List.mem_map.2 ⟨outcome, h.calls.mem_iff.2 hcall, rfl⟩)
  rw [Bool.not_eq_true', List.any_eq_false] at hunstarted
  exact hunstarted outcome.job hstarted hsame

/-- The positions that answers say were deleted. -/
def State.deletedAt (s : State σ) : List Nat :=
  (s.outcomes.filter fun outcome => outcome.result.isOk).map fun outcome => outcome.job.position

/-- The positions that answers say were not. -/
def State.failedAt (s : State σ) : List Nat :=
  (s.outcomes.filter fun outcome => !outcome.result.isOk).map fun outcome => outcome.job.position

/-- The positions of a request that were not started. -/
def State.skippedAt (s : State σ) (codes : List String) : List Nat :=
  (s.unstarted codes).map Job.position

/-- When nothing runs and no answer waits, the report has the accounts of the ledger. -/
theorem Books.accounts (h : Books codes calls s) (hrunning : s.running = [])
    (hanswered : s.answered = []) :
    Accounts codes calls (s.report codes) s.deletedAt s.failedAt (s.skippedAt codes) := by
  obtain ⟨hcalls, hstarted⟩ := h.outcomes_perm hrunning hanswered
  have hplaces : (s.outcomes.map fun outcome => outcome.job.position).Pairwise (· < ·) := by
    have hnodup := h.nodup_answers
    rw [hanswered] at hnodup
    exact pairwise_outcomes hnodup
  have hjobs : ((jobs codes).map Job.position).Pairwise (· < ·) :=
    map_position_jobs codes ▸ List.pairwise_lt_range
  constructor
  · have hpositions := hstarted.map Job.position
    rw [List.map_map] at hpositions
    rw [← map_position_jobs, ← h.order, List.append_assoc s.started, ← h.unstarted_eq,
      List.map_append]
    refine .trans (.append_right _ ?_) (hpositions.append_right _)
    rw [State.deletedAt, State.failedAt, ← List.map_append]
    exact (List.filter_append_perm _ _).map _
  · exact ⟨hplaces.sublist (List.filter_sublist.map _), hplaces.sublist (List.filter_sublist.map _),
      hjobs.sublist (List.filter_sublist.map _)⟩
  · refine forall₂_filterMap (fun outcome houtcome hok => ?_) (fun outcome _ hfailed => by simp [hfailed])
    obtain ⟨hcode, hcallsAt⟩ := h.callsAt_eq (hcalls.mem_iff.1 houtcome)
    obtain ⟨job, _ | _⟩ := outcome
    · cases hok
    · exact ⟨job.code, rfl, hcode, hcallsAt⟩
  · refine forall₂_filterMap (fun outcome houtcome hfailed => ?_) (fun outcome _ hok => ?_)
    · obtain ⟨hcode, hcallsAt⟩ := h.callsAt_eq (hcalls.mem_iff.1 houtcome)
      obtain ⟨job, fault | _⟩ := outcome
      · exact ⟨⟨job.code, fault⟩, rfl, hcode, hcallsAt⟩
      · cases hfailed
    · obtain ⟨job, _ | _⟩ := outcome
      · cases hok
      · rfl
  · refine List.forall₂_map_left_iff.2 (List.forall₂_map_right_iff.2 (List.forall₂_same.2 ?_))
    exact fun job hjob => h.callsAt_eq_nil hjob

section Results

variable {report : Report} {deleted failed skipped : List Nat}

/-- If nothing failed and nothing was skipped, the positions that were deleted are all there are. -/
theorem Accounts.deleted_eq (h : Accounts codes calls report deleted [] []) :
    deleted = List.range codes.length := by
  have hperm := h.partition
  rw [List.append_nil, List.append_nil] at hperm
  exact hperm.eq_of_pairwise (fun _ _ _ _ hlt hgt => absurd hgt (Nat.lt_asymm hlt))
    h.ordered.1 List.pairwise_lt_range

/-- If nothing failed and nothing was skipped, the codes that were deleted are those of the
request. -/
theorem Accounts.report_deleted_eq (h : Accounts codes calls report deleted [] []) :
    report.deleted = codes := by
  have hcodes := h.deleted
  rw [h.deleted_eq, List.forall₂_iff_get] at hcodes
  obtain ⟨hlength, hcodes⟩ := hcodes
  refine List.ext_getElem (hlength.symm.trans List.length_range) fun i hi hi' => ?_
  obtain ⟨hcode, -⟩ := hcodes i (List.length_range.symm ▸ hi') hi
  simpa [List.getElem?_eq_getElem hi'] using hcode.symm

/-- A report collapses to its codes exactly when every position was deleted, and then they are those
of the request. -/
theorem Accounts.result_eq_ok_iff (h : Accounts codes calls report deleted failed skipped)
    (result : List String) : report.result = .ok result ↔
      result = codes ∧ ∀ position < codes.length, position ∈ deleted := by
  constructor
  · intro hresult
    rw [Report.result] at hresult
    split at hresult
    · cases hresult
    · next hfailures =>
      split at hresult
      · next hskips =>
        cases hresult
        have hfailed := h.failed
        have hskipped := h.skipped
        rw [hfailures, List.forall₂_nil_right_iff] at hfailed
        rw [List.isEmpty_iff.1 hskips, List.forall₂_nil_right_iff] at hskipped
        rw [hfailed, hskipped] at h
        rw [h.deleted_eq]
        exact ⟨h.report_deleted_eq, fun position => List.mem_range.2⟩
      · cases hresult
  · rintro ⟨rfl, hall⟩
    have hnodup := h.partition.nodup_iff.2 List.nodup_range
    rw [List.append_assoc, List.nodup_append'] at hnodup
    obtain ⟨-, -, hdisjoint⟩ := hnodup
    have hothers : failed ++ skipped = [] := by
      rw [List.eq_nil_iff_forall_not_mem]
      intro position hposition
      have hmem : position ∈ List.range result.length := by
        rw [← h.partition.mem_iff, List.append_assoc]
        exact List.mem_append_right _ hposition
      exact hdisjoint (hall position (List.mem_range.1 hmem)) hposition
    obtain ⟨rfl, rfl⟩ := List.append_eq_nil_iff.1 hothers
    have hfailures : report.failed = [] := List.forall₂_nil_left_iff.1 h.failed
    have hskips : report.skipped = [] := List.forall₂_nil_left_iff.1 h.skipped
    rw [Report.result, hfailures, hskips, h.report_deleted_eq]
    rfl

/-- A report with failures collapses to the one at the smallest position. -/
theorem Accounts.result_of_failed {first : Nat} {rest : List Nat}
    (h : Accounts codes calls report deleted (first :: rest) skipped) :
    (∀ position ∈ rest, first < position) ∧ ∃ code fault,
      callsAt calls first = [⟨⟨first, code⟩, .error fault⟩] ∧ report.result = .error fault := by
  have hfailed := h.failed
  cases hfailures : report.failed with
  | nil =>
    rw [hfailures] at hfailed
    cases hfailed
  | cons failure later =>
    rw [hfailures] at hfailed
    obtain ⟨⟨-, hcalls⟩, -⟩ := List.forall₂_cons.1 hfailed
    refine ⟨fun _ => List.rel_of_pairwise_cons h.ordered.2.1, failure.code, failure.fault, hcalls, ?_⟩
    rw [Report.result, hfailures]

/-- A report without failures collapses to a stop if something was skipped. -/
theorem Accounts.result_of_skipped (h : Accounts codes calls report deleted [] skipped)
    (hskipped : skipped ≠ []) : report.result =
      .error ⟨.cancelled, toString skipped.length ++ " deletion(s) not attempted"⟩ := by
  have hfailed : report.failed = [] := List.forall₂_nil_left_iff.1 h.failed
  have hlength : skipped.length = report.skipped.length := h.skipped.length_eq
  have hsome : report.skipped.isEmpty = false := by
    rw [List.isEmpty_eq_false_iff, ← List.length_pos_iff, ← hlength, List.length_pos_iff]
    exact hskipped
  rw [Report.result, hfailed]
  simp [hsome, hlength]

end Results

end ShortLinks.Deletion
