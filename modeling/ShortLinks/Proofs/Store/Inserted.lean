import ShortLinks.Proofs.Service
import ShortLinks.Proofs.Store.Added
import ShortLinks.Proofs.Store.Atomicity

/-!
# A batch that goes smoothly

A batch succeeds exactly when it is in no trouble before its commit and the commit does not fail. A
row whose code is taken and a row whose URL is taken are no trouble: both are undone and left out.
Each row meets those of the batch that were inserted before it, but since no two of them share a
code or a URL, it is inserted exactly where the old table has neither. So the order of the batch
makes no difference to what is inserted, and the table keeps its codes and its URLs distinct.
-/

namespace ShortLinks

namespace Table

variable {rows : List Record} {owner : String} {entries : List (String × String)}

/-- No two rows share a code, and no two share a URL. -/
structure Unique (rows : List Record) : Prop where
  codes : (rows.map Record.code).Nodup
  urls : (rows.map Record.url).Nodup

/-- A row that is inserted if it is vacant keeps codes and URLs distinct. -/
theorem Unique.insertVacant (h : Unique rows) (entry : String × String) :
    Unique (insertVacant owner rows entry) := by
  rw [Table.insertVacant]
  split
  · exact h
  · next hfree =>
    have hvacant : Vacant rows entry.1 entry.2 :=
      taken_eq_false_iff.1 (Bool.eq_false_iff.2 hfree)
    exact ⟨nodup_map_concat h.codes fun row hrow => (hvacant row hrow).1,
      nodup_map_concat h.urls fun row hrow => (hvacant row hrow).2⟩

/-- Rows that share neither codes nor URLs stay so when vacant links are inserted. -/
theorem Unique.insertAll (h : Unique rows) : Unique (insertAll owner rows entries) := by
  induction entries generalizing rows with
  | nil => exact h
  | cons entry rest ih => exact ih (h.insertVacant entry)

/-- Rows without common codes or URLs are the same rows in any order. -/
theorem insertAll_perm {entries' : List (String × String)} (hperm : entries'.Perm entries)
    (hcodes : (entries.map Prod.fst).Nodup) (hurls : (entries.map Prod.snd).Nodup) :
    (insertAll owner rows entries').Perm (insertAll owner rows entries) := by
  have hcodes' : (entries'.map Prod.fst).Nodup := (hperm.map Prod.fst).nodup_iff.2 hcodes
  have hurls' : (entries'.map Prod.snd).Nodup := (hperm.map Prod.snd).nodup_iff.2 hurls
  obtain ⟨added, hrows, hnodup, hmem⟩ := exists_added owner rows hcodes hurls
  obtain ⟨added', hrows', hnodup', hmem'⟩ := exists_added owner rows hcodes' hurls'
  rw [hrows, hrows']
  apply List.Perm.append_left
  rw [List.perm_ext_iff_of_nodup hnodup' hnodup]
  intro row
  rw [hmem, hmem', hperm.mem_iff]

end Table

namespace Relational

open Table

variable {r : Relational} {t : Table} {fs : FileSystem} {owner code url what : String}
  {step : SqlStep} {entries : List (String × String)} {urls : Keyed String String}
  {x x' : Transaction}

/-- Nothing goes wrong with a batch: it is in no trouble before its commit, which comes after the
start and three steps a row, and the commit does not fail either. -/
structure Smooth (r : Relational) (t : Table) (owner : String) (entries : List (String × String)) :
    Prop where
  untroubled : ¬Trouble r t owner entries
  committed : r.faults (1 + 3 * entries.length) .commit = none

/-- A step that does not fail is passed. -/
theorem reach_passed (h : r.faults x.performed step = none) :
    (Work.reach r.faults step what).run x = (.ok (), { x with performed := x.performed + 1 }) := by
  obtain ⟨result, hrun, hresult⟩ := reach_run r step what x
  rw [hrun, hresult.2 h]

/-- A savepoint is closed if the step that the answer of the engine asks for does not fail. -/
theorem settleRow_passed {rows : List Record} (haccepted : ¬Refuses r t owner rows (code, url))
    (hclosed : r.faults x.performed (if hasCode rows code || hasUrl rows url
      then .revertSavepoint else .releaseSavepoint) = none) :
    ∃ x', (r.settleRow what (t.change r.readOnly (t.insert rows { code, url, owner }))).run x =
      (.ok (), x') := by
  obtain ⟨-, hvacant, hinsert⟩ | ⟨-, htaken, hinsert⟩ | ⟨refusal, hother, -, hinsert⟩ :=
    insert_cases r t rows { code, url, owner }
  · have hrelease : r.faults x.performed .releaseSavepoint = none := by
      rw [taken_eq_false_iff.2 hvacant] at hclosed
      exact hclosed
    rw [hinsert]
    simp only [settleRow, run_bind, run_modify]
    rw [reach_passed (x := { x with rows := rows ++ [⟨code, url, owner, false⟩] }) hrelease]
    exact ⟨_, rfl⟩
  · have hrevert : r.faults x.performed .revertSavepoint = none := by
      rw [← taken_eq_false_iff, Bool.not_eq_false] at htaken
      rw [htaken] at hclosed
      exact hclosed
    rw [hinsert]
    simp only [settleRow, run_bind]
    rw [reach_passed hrevert]
    exact ⟨_, rfl⟩
  · exact absurd ⟨refusal, hother, hinsert⟩ haccepted

/-- A row is passed if none of its steps fails and the engine does not refuse it. -/
theorem addRow_passed (hsteps : ∀ i step, (rowSteps x.rows (code, url))[i]? = some step →
    r.faults (x.performed + i) step = none) (haccepted : ¬Refuses r t owner x.rows (code, url)) :
    ∃ x', (addRow r t owner code url).run x = (.ok (), x') := by
  rw [addRow, run_bind, reach_passed (hsteps 0 _ rfl)]
  simp only [run_bind, run_modify]
  rw [reach_passed (hsteps 1 _ rfl)]
  simp only [run_get]
  exact settleRow_passed haccepted (hsteps 2 _ rfl)

/-- The rows of a batch are passed, with three steps each, if none of the steps fails and the engine
refuses none of the rows. -/
theorem addRows_passed (hsteps : ∀ i step, (rowsSteps owner x.rows entries)[i]? = some step →
      r.faults (x.performed + i) step = none)
    (haccepted : ∀ done entry rest, entries = done ++ entry :: rest →
      ¬Refuses r t owner (insertAll owner x.rows done) entry) :
    ∃ x', (addRows r t owner entries).run x = (.ok (), x') := by
  induction entries generalizing x with
  | nil => exact ⟨x, rfl⟩
  | cons entry rest ih =>
    obtain ⟨code, url⟩ := entry
    have hrow : ∀ i step, (rowSteps x.rows (code, url))[i]? = some step →
        r.faults (x.performed + i) step = none := by
      intro i step hstep
      apply hsteps
      rw [rowsSteps, List.getElem?_append_left, hstep]
      exact (List.getElem?_eq_some_iff.1 hstep).1
    obtain ⟨x₁, hrun⟩ := addRow_passed hrow (haccepted [] _ _ rfl)
    have hperformed : x₁.performed = x.performed + 3 := (addRow_ok hrun).1
    have hrows : x₁.rows = insertVacant owner x.rows (code, url) := (addRow_done hrun).1
    rw [addRows, run_bind, hrun]
    apply ih
    · intro i step hstep
      rw [hperformed, Nat.add_assoc]
      apply hsteps
      rw [rowsSteps, List.getElem?_append_right (Nat.le_add_right 3 i), ← hrows]
      rw [← hstep]
      congr 1
      exact Nat.add_sub_cancel_left 3 i
    · intro done entry rest' hentries
      rw [hrows]
      exact haccepted ((code, url) :: done) entry rest' (congrArg _ hentries)

/-- Rows that a batch got past took three steps each. -/
theorem performed_addRows (h : (addRows r t owner entries).run x = (.ok (), x')) :
    x'.performed = x.performed + 3 * entries.length := by
  induction entries generalizing x with
  | nil =>
    cases h
    rfl
  | cons entry rest ih =>
    obtain ⟨_, x₁, hfirst, hrest⟩ := run_bind_ok h
    rw [ih hrest, (addRow_ok hfirst).1, List.length_cons]
    omega

/-- The work of a batch that has time comes to its end exactly when nothing goes wrong. -/
theorem batchWork_ok_iff (hpatient : r.patience ≠ 0) :
    (∃ x, (batchWork r t owner entries).run (.start t.rows) = (.ok (), x)) ↔
      Smooth r t owner entries := by
  constructor
  · rintro ⟨x, h⟩
    obtain ⟨_, x₁, hstart, h⟩ := run_bind_ok h
    obtain ⟨rfl, hstarted⟩ := reach_ok hstart
    obtain ⟨_, x₂, hrows, hcommit⟩ := run_bind_ok h
    obtain ⟨-, hcommitted⟩ := reach_ok hcommit
    rw [performed_addRows hrows] at hcommitted
    exact ⟨not_trouble_of_addRows_ok hpatient hstarted hrows, hcommitted⟩
  · intro h
    have hsteps : ∀ n step, (SqlStep.start :: rowsSteps owner t.rows entries)[n]? = some step →
        r.faults n step = none :=
      fun n step hstep => by_contra fun hfault => h.untroubled (.step n step hstep hfault)
    have hstart : r.faults (Transaction.start t.rows).performed .start = none := hsteps 0 _ rfl
    obtain ⟨x, hrows⟩ : ∃ x, (addRows r t owner entries).run
        { Transaction.start t.rows with performed := (Transaction.start t.rows).performed + 1 } =
          (.ok (), x) := by
      apply addRows_passed
      · intro i step hstep
        rw [Nat.add_comm]
        exact hsteps (i + 1) step hstep
      · exact fun done entry rest hentries hrefused =>
          h.untroubled (.refused done entry rest hentries hrefused)
    have hcommit : r.faults x.performed .commit = none := by
      rw [performed_addRows hrows]
      exact h.committed
    rw [batchWork, run_bind, reach_passed hstart]
    simp only [run_bind, hrows]
    rw [reach_passed hcommit]
    exact ⟨_, rfl⟩

/-- A batch of some links succeeds exactly when nothing goes wrong with it. -/
theorem addBatch_ok_iff (hsome : urls.entries ≠ []) :
    ((addBatch urls owner).run ⟨r, fs⟩).1 = .ok () ↔
      Smooth r (r.table fs) owner urls.entries := by
  rw [addBatch, if_neg (by rwa [List.isEmpty_iff])]
  obtain ⟨fs', ⟨hpatience, -, hrun⟩ | ⟨hpatience, -, hrun⟩⟩ :=
    run_cases "add_batch" (fun r t => insertBatch r t owner urls.entries) r fs
  · rw [hrun]
    refine iff_of_false (fun h => ?_) fun h => h.untroubled (.untimed hpatience)
    cases h
  · rw [hrun, except_mapError_eq_ok, ← batchWork_ok_iff hpatience, insertBatch]
    rcases (batchWork r (r.table fs) owner urls.entries).run (.start (r.table fs).rows)
      with ⟨stop | _, x⟩
    · apply iff_of_false
      · rintro ⟨⟩
      · rintro ⟨_, ⟨⟩⟩
    · exact iff_of_true rfl ⟨x, rfl⟩

/-- Where nothing can go wrong, nothing goes wrong with any batch. -/
theorem Sound.smooth (h : Sound r t) : Smooth r t owner entries where
  untroubled := by
    rintro (huntimed | ⟨n, step, -, hfault⟩ | ⟨done, entry, rest, -, refusal, hother, hrefused⟩)
    · exact h.patient huntimed
    · rw [h.faultless] at hfault
      exact hfault rfl
    · obtain ⟨-, -, hinsert⟩ | ⟨-, -, hinsert⟩ | ⟨_, -, hsound, -⟩ := insert_cases r t
        (insertAll owner t.rows done) { code := entry.1, url := entry.2, owner }
      · cases hinsert.symm.trans hrefused
      · cases hinsert.symm.trans hrefused
        exact hother rfl
      · exact hsound h
  committed := by
    rw [h.faultless]
    rfl

/-- A batch with which nothing goes wrong inserts its rows as far as they are vacant. -/
theorem run_addBatch_smooth
    (h : urls.entries = [] ∨ Smooth r (r.table fs) owner urls.entries) :
    ∃ fs', (addBatch urls owner).run ⟨r, fs⟩ = (.ok (), ⟨r, fs'⟩) ∧
      r.table fs' =
        { r.table fs with rows := insertAll owner (r.table fs).rows urls.entries } := by
  have hok : ((addBatch urls owner).run ⟨r, fs⟩).1 = .ok () := by
    by_cases hempty : urls.entries = []
    · rw [addBatch, if_pos (List.isEmpty_iff.2 hempty)]
      rfl
    · exact (addBatch_ok_iff hempty).2 (h.resolve_left hempty)
  obtain ⟨result, fs', hrun, ⟨rfl, -, htable⟩ | ⟨f, rfl, -⟩⟩ := addBatch_cases r fs urls owner
  · exact ⟨fs', hrun, htable⟩
  · rw [hrun] at hok
    cases hok

/-- A batch whose URLs are distinct, as they are in every batch of the service, succeeds if nothing
goes wrong with it. Then its links were added as rows of their owner exactly where no row had the
code and none had the URL, each once and behind the rows that were there. Codes and URLs stay
distinct, and the same batch in another order gives the same rows. -/
theorem addBatch_inserts_vacant (r : Relational) (fs : FileSystem) (urls : Keyed String String)
    (owner : String) (hunique : Unique (r.table fs).rows)
    (hurls : (urls.entries.map Prod.snd).Nodup)
    (hsmooth : urls.entries = [] ∨ Smooth r (r.table fs) owner urls.entries) :
    (∃ added fs', (addBatch urls owner).run ⟨r, fs⟩ = (.ok (), ⟨r, fs'⟩) ∧
      r.table fs' = { r.table fs with rows := (r.table fs).rows ++ added } ∧
      added.Nodup ∧
      (∀ row, row ∈ added ↔ row.owner = owner ∧ row.deleted = false ∧
        urls.find? row.code = some row.url ∧ Vacant (r.table fs).rows row.code row.url) ∧
      Unique (r.table fs').rows ∧
      ∀ urls', urls'.entries.Perm urls.entries → Smooth r (r.table fs) owner urls'.entries →
        ∃ fs'', (addBatch urls' owner).run ⟨r, fs⟩ = (.ok (), ⟨r, fs''⟩) ∧
          (r.table fs'').rows.Perm (r.table fs').rows) ∧
    ∀ scheme batch, ((Service.byCode scheme batch).entries.map Prod.snd).Nodup := by
  refine ⟨?_, Service.nodup_urls_byCode⟩
  obtain ⟨fs', hrun, htable⟩ := run_addBatch_smooth hsmooth
  obtain ⟨added, hrows, hnodup, hmem⟩ := exists_added owner (r.table fs).rows urls.nodup hurls
  refine ⟨added, fs', hrun, by rw [htable, hrows], hnodup, fun row => ?_, ?_, ?_⟩
  · rw [hmem, Keyed.mem_entries_iff]
  · rw [htable]
    exact hunique.insertAll
  · intro urls' hperm hsmooth'
    obtain ⟨fs'', hrun', htable'⟩ := run_addBatch_smooth (.inr hsmooth')
    refine ⟨fs'', hrun', ?_⟩
    rw [htable, htable']
    exact insertAll_perm hperm urls.nodup hurls

/-- A table with a link of one owner and a deleted one of another. -/
def twoRows : FileSystem where
  contents := [.database { rows :=
    [⟨"b", "https://b.example/", "u1", false⟩, ⟨"d", "https://d.example/", "u2", true⟩] }]

/-- A batch of three links, one under a code that is taken and one to a URL that is taken. -/
def oneVacant : Keyed String String := Keyed.ofList
  [("b", "https://c.example/"), ("a", "https://a.example/"), ("e", "https://d.example/")]

/-- Only the link whose code and URL are vacant is inserted. -/
theorem addBatch_inserts_vacant_one : ∃ added fs',
    (addBatch oneVacant "u2").run ⟨{ file := 0 }, twoRows⟩ = (.ok (), ⟨{ file := 0 }, fs'⟩) ∧
    (table { file := 0 } fs').rows = (table { file := 0 } twoRows).rows ++ added ∧
    (⟨"a", "https://a.example/", "u2", false⟩ : Record) ∈ added ∧
    ∀ row ∈ added, row.code ≠ "b" ∧ row.code ≠ "e" := by
  have hsound : Sound { file := 0 } (table { file := 0 } twoRows) :=
    ⟨by decide, rfl, rfl, rfl, rfl, rfl⟩
  obtain ⟨⟨added, fs', hrun, htable, -, hmem, -⟩, -⟩ := addBatch_inserts_vacant { file := 0 } twoRows
    oneVacant "u2" ⟨by decide, by decide⟩ (by decide) (.inr hsound.smooth)
  refine ⟨added, fs', hrun, by rw [htable], (hmem _).2 ⟨rfl, rfl, rfl, ?_⟩, fun row hrow => ?_⟩
  · decide
  · obtain ⟨-, -, hfind, hvacant⟩ := (hmem row).1 hrow
    have hcode : row.code ≠ "b" := (hvacant ⟨"b", "https://b.example/", "u1", false⟩
      List.mem_cons_self).1.symm
    have hurl : row.url ≠ "https://d.example/" := (hvacant ⟨"d", "https://d.example/", "u2", true⟩
      (List.mem_cons_of_mem _ List.mem_cons_self)).2.symm
    refine ⟨hcode, fun htaken => hurl ?_⟩
    rw [htaken] at hfind
    exact (Option.some.inj hfind).symm

end Relational

end ShortLinks
