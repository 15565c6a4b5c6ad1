import ShortLinks.Proofs.Store.Relational

/-!
# A batch that fails in the middle

A batch takes three steps for each of its rows: it opens a savepoint, tries the row, and then keeps
the row or goes back to the savepoint. Each step can fail on its own or find that nobody waits any
more, and the engine can refuse a row otherwise than as a duplicate. By then the rows before it were
inserted and their savepoints released, or skipped and undone; the rows from before the batch lie
below all of that, and they are what remains.
-/

namespace ShortLinks.Relational

open Table

variable {r : Relational} {t : Table} {owner code url what : String} {step : SqlStep}
  {rows : List Record} {entries : List (String × String)} {x x' : Transaction} {stop : Stop}

/-- The steps that a batch takes for one row. -/
def rowSteps (rows : List Record) (entry : String × String) : List SqlStep :=
  [.openSavepoint, .insertRow,
    if hasCode rows entry.1 || hasUrl rows entry.2 then .revertSavepoint else .releaseSavepoint]

/-- The steps that a batch takes for its rows. Each row finds those before it inserted. -/
def rowsSteps (owner : String) : List Record → List (String × String) → List SqlStep
  | _, [] => []
  | rows, entry :: rest =>
    rowSteps rows entry ++ rowsSteps owner (insertVacant owner rows entry) rest

/-- The engine refuses a row, and not because it is there already. -/
def Refuses (r : Relational) (t : Table) (owner : String) (rows : List Record)
    (entry : String × String) : Prop :=
  ∃ refusal, refusal ≠ .duplicate ∧
    t.change r.readOnly (t.insert rows { code := entry.1, url := entry.2, owner }) = .error refusal

/-- What can go wrong with a batch before its commit. -/
inductive Trouble (r : Relational) (t : Table) (owner : String) (entries : List (String × String)) :
    Prop
  /-- The batch has no time at all. -/
  | untimed (h : r.patience = 0)
  /-- One of its steps fails on its own, or nobody waits for it any more. -/
  | step (n : Nat) (step : SqlStep)
      (hstep : (SqlStep.start :: rowsSteps owner t.rows entries)[n]? = some step)
      (hfault : r.faults n step ≠ none)
  /-- The engine refuses one of its rows when the turn of this row comes. -/
  | refused (done : List (String × String)) (entry : String × String)
      (rest : List (String × String)) (hentries : entries = done ++ entry :: rest)
      (hrefused : Refuses r t owner (insertAll owner t.rows done) entry)

/-- Work that stopped at a row, over some savepoints: the rows before it were inserted as far as
they were vacant. Its own savepoint is not open yet, or it keeps the rows as they were before it. -/
def StoppedAt (owner : String) (rows : List Record) (saved : List (List Record))
    (entry : String × String) (x : Transaction) : Prop :=
  (x.saved = saved ∧ x.rows = rows) ∨
    x.saved = rows :: saved ∧ (x.rows = rows ∨ x.rows = insertVacant owner rows entry)

/-- A transaction before its commit: some first rows of the batch were inserted as far as they were
vacant, the work stopped at the next one, and the rows from before the batch lie at the bottom. -/
def Midway (owner : String) (rows : List Record) (entries : List (String × String))
    (x : Transaction) : Prop :=
  ∃ done entry rest, entries = done ++ entry :: rest ∧
    StoppedAt owner (insertAll owner rows done) [rows] entry x

/-- A transaction that is dropped midway leaves the rows from before the batch. -/
theorem dropped_of_midway (h : Midway owner rows entries x) : x.dropped = rows := by
  obtain ⟨done, entry, rest, -, ⟨hsaved, -⟩ | ⟨hsaved, -⟩⟩ := h <;>
    rw [Transaction.dropped, hsaved] <;> rfl

/-- A step counts, whether or not it fails, and touches neither the rows nor the savepoints. -/
theorem reach_run (r : Relational) (step : SqlStep) (what : String) (x : Transaction) :
    ∃ result, (Work.reach r.faults step what).run x =
      (result, { x with performed := x.performed + 1 }) ∧
      (result = .ok () ↔ r.faults x.performed step = none) := by
  simp only [Work.reach, run_bind, run_get, run_set]
  cases hfault : r.faults x.performed step with
  | none => exact ⟨_, rfl, by simp⟩
  | some trouble => cases trouble <;> exact ⟨_, rfl, by simp⟩

/-- A step that was passed did not fail. -/
theorem reach_ok (h : (Work.reach r.faults step what).run x = (.ok (), x')) :
    x' = { x with performed := x.performed + 1 } ∧ r.faults x.performed step = none := by
  obtain ⟨result, hrun, hresult⟩ := reach_run r step what x
  obtain ⟨rfl, rfl⟩ := end_eq_iff.1 (hrun.symm.trans h)
  exact ⟨rfl, hresult.1 rfl⟩

/-- A step that stopped the work left the rows and the savepoints. -/
theorem reach_stopped (h : (Work.reach r.faults step what).run x = (.error stop, x')) :
    x'.rows = x.rows ∧ x'.saved = x.saved := by
  obtain ⟨result, hrun, -⟩ := reach_run r step what x
  obtain ⟨-, rfl⟩ := end_eq_iff.1 (hrun.symm.trans h)
  exact ⟨rfl, rfl⟩

/-- The engine inserts a row only where it is vacant. -/
theorem insertVacant_of_insert {after : List Record}
    (h : t.change r.readOnly (t.insert rows { code, url, owner }) = .ok after) :
    (hasCode rows code || hasUrl rows url) = false ∧
      after = insertVacant owner rows (code, url) := by
  obtain ⟨-, hvacant, hinsert⟩ | ⟨-, -, hinsert⟩ | ⟨_, -, -, hinsert⟩ :=
    insert_cases r t rows { code, url, owner }
  · cases hinsert.symm.trans h
    have hfree := taken_eq_false_iff.2 hvacant
    refine ⟨hfree, ?_⟩
    rw [insertVacant, hfree]
    rfl
  · cases hinsert.symm.trans h
  · cases hinsert.symm.trans h

/-- A row that the engine has already is not vacant. -/
theorem taken_of_duplicate
    (h : t.change r.readOnly (t.insert rows { code, url, owner }) = .error .duplicate) :
    (hasCode rows code || hasUrl rows url) = true := by
  obtain ⟨-, -, hinsert⟩ | ⟨-, htaken, -⟩ | ⟨_, hother, -, hinsert⟩ :=
    insert_cases r t rows { code, url, owner }
  · cases hinsert.symm.trans h
  · rw [← Bool.not_eq_false, taken_eq_false_iff]
    exact htaken
  · cases hinsert.symm.trans h
    exact absurd rfl hother

/-- A savepoint that was closed took one step, which the answer of the engine decides. -/
theorem settleRow_ok {answer : Except SqlRefusal (List Record)}
    (h : (r.settleRow what answer).run x = (.ok (), x')) :
    x'.performed = x.performed + 1 ∧
      ((∃ after, answer = .ok after ∧ r.faults x.performed .releaseSavepoint = none) ∨
        answer = .error .duplicate ∧ r.faults x.performed .revertSavepoint = none) := by
  rcases answer with (_ | _ | _ | _ | _) | after
  case error.duplicate =>
    obtain ⟨_, x₁, hrevert, hdone⟩ := run_bind_ok h
    obtain ⟨rfl, hfine⟩ := reach_ok hrevert
    cases hdone
    exact ⟨rfl, .inr ⟨rfl, hfine⟩⟩
  case ok =>
    obtain ⟨_, x₁, hinsert, hrest⟩ := run_bind_ok h
    cases hinsert
    obtain ⟨_, x₂, hrelease, hdone⟩ := run_bind_ok hrest
    obtain ⟨rfl, hfine⟩ := reach_ok hrelease
    cases hdone
    exact ⟨rfl, .inl ⟨after, rfl, hfine⟩⟩
  all_goals cases h

/-- Work that stopped while a savepoint was closed left the savepoints, and the rows are those from
before the insert or those after it. -/
theorem settleRow_stopped {answer : Except SqlRefusal (List Record)}
    (h : (r.settleRow what answer).run x = (.error stop, x')) :
    x'.saved = x.saved ∧ (x'.rows = x.rows ∨ answer = .ok x'.rows) := by
  rcases answer with (_ | _ | _ | _ | _) | after
  case error.duplicate =>
    obtain hrevert | ⟨_, x₁, -, hdone⟩ := run_bind_error h
    · obtain ⟨hrows, hsaved⟩ := reach_stopped hrevert
      exact ⟨hsaved, .inl hrows⟩
    · cases hdone
  case ok =>
    obtain hinsert | ⟨_, x₁, hinsert, hrest⟩ := run_bind_error h
    · cases hinsert
    · cases hinsert
      obtain hrelease | ⟨_, x₂, -, hdone⟩ := run_bind_error hrest
      · obtain ⟨hrows, hsaved⟩ := reach_stopped hrelease
        exact ⟨hsaved, .inr (congrArg _ hrows.symm)⟩
      · cases hdone
  all_goals
    cases h
    exact ⟨rfl, .inl rfl⟩

/-- A row that a batch got past took its three steps, none of which failed, and the engine did not
refuse it. -/
theorem addRow_ok (h : (addRow r t owner code url).run x = (.ok (), x')) :
    x'.performed = x.performed + 3 ∧
      (∀ i step, (rowSteps x.rows (code, url))[i]? = some step →
        r.faults (x.performed + i) step = none) ∧
      ¬Refuses r t owner x.rows (code, url) := by
  obtain ⟨_, x₁, hopen, h⟩ := run_bind_ok h
  obtain ⟨rfl, hopened⟩ := reach_ok hopen
  obtain ⟨_, x₂, hsave, h⟩ := run_bind_ok h
  cases hsave
  obtain ⟨_, x₃, hrow, h⟩ := run_bind_ok h
  obtain ⟨rfl, htried⟩ := reach_ok hrow
  obtain ⟨_, x₄, hget, hsettle⟩ := run_bind_ok h
  cases hget
  obtain ⟨hperformed, hanswer⟩ := settleRow_ok hsettle
  have hclosed : r.faults (x.performed + 2) (if hasCode x.rows code || hasUrl x.rows url
      then .revertSavepoint else .releaseSavepoint) = none := by
    obtain ⟨after, hinsert, hfine⟩ | ⟨hduplicate, hfine⟩ := hanswer
    · have hfree : (hasCode x.rows code || hasUrl x.rows url) = false :=
        (insertVacant_of_insert hinsert).1
      rw [hfree]
      exact hfine
    · have htaken : (hasCode x.rows code || hasUrl x.rows url) = true :=
        taken_of_duplicate hduplicate
      rw [htaken]
      exact hfine
  refine ⟨hperformed, fun i step hstep => ?_, ?_⟩
  · match i with
    | 0 =>
      cases hstep
      exact hopened
    | 1 =>
      cases hstep
      exact htried
    | 2 =>
      cases hstep
      exact hclosed
    | _ + 3 => cases hstep
  · rintro ⟨refusal, hother, hrefused⟩
    obtain ⟨after, hinsert, -⟩ | ⟨hduplicate, -⟩ := hanswer
    · cases hrefused.symm.trans hinsert
    · cases hrefused.symm.trans hduplicate
      exact hother rfl

/-- Work that stopped in a row stopped with this row's savepoint not open yet, or over the rows from
before it. -/
theorem addRow_stopped (h : (addRow r t owner code url).run x = (.error stop, x')) :
    StoppedAt owner x.rows x.saved (code, url) x' := by
  obtain hopen | ⟨_, x₁, hopen, h⟩ := run_bind_error h
  · obtain ⟨hrows, hsaved⟩ := reach_stopped hopen
    exact .inl ⟨hsaved, hrows⟩
  obtain ⟨rfl, -⟩ := reach_ok hopen
  obtain hsave | ⟨_, x₂, hsave, h⟩ := run_bind_error h
  · cases hsave
  cases hsave
  obtain hrow | ⟨_, x₃, hrow, h⟩ := run_bind_error h
  · obtain ⟨hrows, hsaved⟩ := reach_stopped hrow
    exact .inr ⟨hsaved, .inl hrows⟩
  obtain ⟨rfl, -⟩ := reach_ok hrow
  obtain hget | ⟨_, x₄, hget, hsettle⟩ := run_bind_error h
  · cases hget
  cases hget
  obtain ⟨hsaved, hrows | hinsert⟩ := settleRow_stopped hsettle
  · exact .inr ⟨hsaved, .inl hrows⟩
  · exact .inr ⟨hsaved, .inr (insertVacant_of_insert hinsert).2⟩

/-- A row that a batch got past was inserted if it was vacant, and the savepoints are as before. -/
theorem addRow_done (h : (addRow r t owner code url).run x = (.ok (), x')) :
    x'.rows = insertVacant owner x.rows (code, url) ∧ x'.saved = x.saved := by
  obtain ⟨x₁, hrun, hrows, hsaved, -⟩ | ⟨_, _, -, -, hrun, -⟩ := addRow_cases r t owner code url x
  · cases hrun.symm.trans h
    exact ⟨hrows, hsaved⟩
  · cases hrun.symm.trans h

/-- Rows that a batch got past took their steps, none of which failed, and the engine refused none
of them. -/
theorem addRows_ok (h : (addRows r t owner entries).run x = (.ok (), x')) :
    (∀ i step, (rowsSteps owner x.rows entries)[i]? = some step →
      r.faults (x.performed + i) step = none) ∧
    ∀ done entry rest, entries = done ++ entry :: rest →
      ¬Refuses r t owner (insertAll owner x.rows done) entry := by
  induction entries generalizing x with
  | nil => simp [rowsSteps]
  | cons first rest ih =>
    obtain ⟨code, url⟩ := first
    obtain ⟨_, x₁, hfirst, hrest⟩ := run_bind_ok h
    obtain ⟨hperformed, hsteps, haccepted⟩ := addRow_ok hfirst
    have hrows : x₁.rows = insertVacant owner x.rows (code, url) := (addRow_done hfirst).1
    obtain ⟨hlater, hothers⟩ := ih hrest
    rw [hrows, hperformed] at hlater
    rw [hrows] at hothers
    constructor
    · intro i step hstep
      rw [rowsSteps] at hstep
      obtain hi | hi : i < 3 ∨ 3 ≤ i := Nat.lt_or_ge i 3
      · rw [List.getElem?_append_left hi] at hstep
        exact hsteps i step hstep
      · rw [List.getElem?_append_right hi] at hstep
        have hfine := hlater (i - 3) step hstep
        rwa [Nat.add_assoc, Nat.add_sub_cancel' hi] at hfine
    · rintro (_ | ⟨first, done⟩) entry rest' hentries
      · cases hentries
        exact haccepted
      · cases hentries
        exact hothers done entry rest' rfl

/-- Work that stopped in the rows of a batch stopped at one of them, with the rows before it
inserted as far as they were vacant. -/
theorem addRows_stopped (h : (addRows r t owner entries).run x = (.error stop, x')) :
    ∃ done entry rest, entries = done ++ entry :: rest ∧
      StoppedAt owner (insertAll owner x.rows done) x.saved entry x' := by
  induction entries generalizing x with
  | nil => cases h
  | cons first rest ih =>
    obtain ⟨code, url⟩ := first
    obtain hfirst | ⟨_, x₁, hfirst, hrest⟩ := run_bind_error h
    · exact ⟨[], (code, url), rest, rfl, addRow_stopped hfirst⟩
    · obtain ⟨done, entry, rest', rfl, hstopped⟩ := ih hrest
      rw [(addRow_done hfirst).1, (addRow_done hfirst).2] at hstopped
      exact ⟨(code, url) :: done, entry, rest', rfl, hstopped⟩

/-- A batch whose rows are all done was in no trouble before its commit. -/
theorem not_trouble_of_addRows_ok (hpatient : r.patience ≠ 0)
    (hstart : r.faults 0 .start = none)
    (h : (addRows r t owner entries).run ⟨t.rows, [t.rows], 1⟩ = (.ok (), x)) :
    ¬Trouble r t owner entries := by
  obtain ⟨hsteps, haccepted⟩ := addRows_ok h
  rintro (huntimed | ⟨n, step, hstep, hfault⟩ | ⟨done, entry, rest, hentries, hrefused⟩)
  · exact hpatient huntimed
  · cases n with
    | zero =>
      cases hstep
      exact hfault hstart
    | succ i =>
      have hfine : r.faults (1 + i) step = none := hsteps i step hstep
      rw [Nat.add_comm] at hfine
      exact hfault hfine
  · exact haccepted done entry rest hentries hrefused

/-- A batch in trouble stops, and its transaction is midway. -/
theorem batchWork_stopped (hsome : entries ≠ []) (hpatient : r.patience ≠ 0)
    (h : Trouble r t owner entries) : ∃ stop x,
      (batchWork r t owner entries).run (.start t.rows) = (.error stop, x) ∧
        Midway owner t.rows entries x := by
  obtain ⟨result, hstart, hresult⟩ :=
    reach_run r .start "failed to begin transaction" (.start t.rows)
  rw [batchWork, run_bind, hstart]
  rcases result with stop | _
  · obtain ⟨entry, rest, rfl⟩ := List.exists_cons_of_ne_nil hsome
    exact ⟨stop, _, rfl, [], entry, rest, rfl, .inl ⟨rfl, rfl⟩⟩
  · have hstart : r.faults 0 .start = none := hresult.1 rfl
    rcases hrows : (addRows r t owner entries).run
        { Transaction.start t.rows with performed := (Transaction.start t.rows).performed + 1 }
      with ⟨stop | _, x⟩
    · refine ⟨stop, x, ?_, addRows_stopped hrows⟩
      simp only [run_bind, hrows]
    · exact absurd h (not_trouble_of_addRows_ok hpatient hstart hrows)

/-- A batch that gets into trouble at any of its steps before the commit answers with a fault, and
the table is what it was, whatever the transaction had done to it by then: its first rows were
inserted as far as they were vacant. -/
theorem addBatch_all_or_nothing (r : Relational) (fs : FileSystem) (urls : Keyed String String)
    (owner : String) (hsome : urls.entries ≠ [])
    (h : Trouble r (r.table fs) owner urls.entries) :
    ∃ fault fs', (addBatch urls owner).run ⟨r, fs⟩ = (.error fault, ⟨r, fs'⟩) ∧
      r.table fs' = r.table fs ∧
      (r.patience ≠ 0 → ∃ stop x,
        (batchWork r (r.table fs) owner urls.entries).run (.start (r.table fs).rows) =
          (.error stop, x) ∧
        Midway owner (r.table fs).rows urls.entries x ∧
        fault = stop.answer "add_batch" r) := by
  rw [addBatch, if_neg (by rwa [List.isEmpty_iff])]
  obtain ⟨fs', ⟨hpatience, htable, hrun⟩ | ⟨hpatience, htable, hrun⟩⟩ :=
    run_cases "add_batch" (fun r t => insertBatch r t owner urls.entries) r fs
  · exact ⟨_, fs', hrun, htable, fun hpatient => absurd hpatience hpatient⟩
  · obtain ⟨stop, x, hwork, hmidway⟩ := batchWork_stopped hsome hpatience h
    have hinsert : insertBatch r (r.table fs) owner urls.entries = (.error stop, r.table fs) := by
      rw [insertBatch, hwork]
      simp only [dropped_of_midway hmidway]
    refine ⟨stop.answer "add_batch" r, fs', ?_, ?_, fun _ => ⟨stop, x, hwork, hmidway, rfl⟩⟩
    · rw [hrun, hinsert]
      rfl
    · rw [htable, hinsert]

/-- A store whose operations lose whoever waits for them at the tenth step of a batch. -/
def leftAlone : Relational where
  file := 0
  faults n _ := if n = 9 then some .abandoned else none

/-- The files with a table that has one row. -/
def oneRow : FileSystem where
  contents := [.database { rows := [⟨"b", "https://b.example/", "u1", false⟩] }]

/-- The first row of a batch is inserted and the second is skipped. While the savepoint of the third
is released, nobody waits any more: the transaction has three rows, and the table keeps its one. -/
theorem addBatch_all_or_nothing_third : ∃ urls fs' x,
    urls = Keyed.ofList [("a", "https://a.example/"), ("b", "https://c.example/"),
      ("c", "https://c.example/")] ∧
    (addBatch urls "u2").run ⟨leftAlone, oneRow⟩ =
      (.error (tooLong "add_batch" 60000), ⟨leftAlone, fs'⟩) ∧
    leftAlone.table fs' = leftAlone.table oneRow ∧
    (batchWork leftAlone (leftAlone.table oneRow) "u2" urls.entries).run
      (.start (leftAlone.table oneRow).rows) = (.error .abandoned, x) ∧
    x.rows = [⟨"b", "https://b.example/", "u1", false⟩, ⟨"a", "https://a.example/", "u2", false⟩,
      ⟨"c", "https://c.example/", "u2", false⟩] := by
  let urls : Keyed String String := Keyed.ofList
    [("a", "https://a.example/"), ("b", "https://c.example/"), ("c", "https://c.example/")]
  have htrouble : Trouble leftAlone (leftAlone.table oneRow) "u2" urls.entries :=
    .step 9 .releaseSavepoint rfl (by decide)
  obtain ⟨fault, fs', hrun, htable, hstopped⟩ :=
    addBatch_all_or_nothing leftAlone oneRow urls "u2" (by decide) htrouble
  obtain ⟨stop, x, hwork, -, rfl⟩ := hstopped (by decide)
  have hthird : (batchWork leftAlone (leftAlone.table oneRow) "u2" urls.entries).run
      (.start (leftAlone.table oneRow).rows) = (.error .abandoned, _) := rfl
  obtain ⟨hstop, hx⟩ := end_eq_iff.1 (hwork.symm.trans hthird)
  cases hstop
  refine ⟨urls, fs', x, rfl, hrun, htable, hwork, ?_⟩
  rw [hx]
  rfl

end ShortLinks.Relational
