import ShortLinks.Proofs.Journal.Failing
import ShortLinks.Proofs.Store.Memory

/-!
# Backups give back the links

After a backup that succeeded, the journal holds the lines of all links, whatever it held before. A
store that is opened there has the same links under the same owners and codes, with their tombstones
and whichever characters they are made of. A backup that failed left the store as it was, and its
fault says what stands at the path of the journal.
-/

namespace ShortLinks.Memory

open FileSystem

variable {m m' : Memory} {fs fs' : FileSystem} {journal : Journal}

/-- A backup writes the journal as a whole, and changes nothing in memory but the file that the
journal has at hand. -/
theorem run_backup (hjournal : m.journal = some journal) (fs : FileSystem) :
    backup.run ⟨m, fs⟩ = match (journal.replace m.owners.snapshot).run fs with
      | (.ok journal', fs') => (.ok (), ⟨{ m with journal := some journal' }, fs'⟩)
      | (.error fault, fs') => (.error fault, ⟨m, fs'⟩) := by
  rw [backup, run_bind, Action.run_store]
  simp only [hjournal, run_bind, Action.run_onFiles]
  rcases (journal.replace m.owners.snapshot).run fs with ⟨_ | _, _⟩ <;> rfl

/-- A backup keeps the links, whether it fails or not. -/
theorem owners_backup (m : Memory) (fs : FileSystem) :
    (backup.run ⟨m, fs⟩).2.store.owners = m.owners := by
  cases hjournal : m.journal with
  | none =>
    rw [backup, run_bind, Action.run_store]
    simp [hjournal]
  | some journal =>
    rw [run_backup hjournal]
    rcases (journal.replace m.owners.snapshot).run fs with ⟨_ | _, _⟩ <;> rfl

/-- A backup leaves the lines of all links in the file of the journal, and nothing else. -/
theorem run_backup_ok (hjournal : m.journal = some journal)
    (h : backup.run ⟨m, fs⟩ = (.ok (), ⟨m', fs'⟩)) :
    ∃ file, fs'.Stands journal.path file ∧
      fs'.bytes file = m.owners.snapshot.flatMap Journal.lineBytes ∧
      m' = { m with
        journal := some { journal with writer := journal.writer.map fun _ => file } } := by
  rw [run_backup hjournal] at h
  rcases hreplace : (journal.replace m.owners.snapshot).run fs with ⟨_ | journal', fs₁⟩ <;>
    rw [hreplace] at h <;> cases h
  obtain ⟨file, hstands, hbytes, rfl, -⟩ := Journal.run_replace_ok hreplace
  exact ⟨file, hstands, hbytes, rfl⟩

/-- A backup that succeeds took all operations, and each was let through. -/
theorem granted_backup (hjournal : m.journal = some journal)
    (h : backup.run ⟨m, fs⟩ = (.ok (), ⟨m', fs'⟩)) :
    ∃ writes, Granted (journal.operations writes) fs fs' := by
  rw [run_backup hjournal] at h
  rcases hreplace : (journal.replace m.owners.snapshot).run fs with ⟨_ | journal', fs₁⟩ <;>
    rw [hreplace] at h <;> cases h
  exact Journal.granted_replace hreplace

/-- The file of a journal is kept when a backup succeeded. -/
theorem keeping_backup (hjournal : m.journal = some journal)
    (h : backup.run ⟨m, fs⟩ = (.ok (), ⟨m', fs'⟩)) :
    ∃ file, Keeping journal.path file (m.owners.snapshot.flatMap Journal.lineBytes) fs' := by
  rw [run_backup hjournal] at h
  rcases hreplace : (journal.replace m.owners.snapshot).run fs with ⟨_ | journal', fs₁⟩ <;>
    rw [hreplace] at h <;> cases h
  exact Journal.keeping_replace hreplace

/-- A backup that fails leaves the store as it was. The file of its journal stands at the path
and holds what it held, or another file stands there, with the lines of all links, and was not
opened. -/
theorem backup_failed {file : FileId} {content : Bytes} {f : Fault}
    (hjournal : m.journal = some journal) (hkeeping : Keeping journal.path file content fs)
    (h : backup.run ⟨m, fs⟩ = (.error f, ⟨m', fs'⟩)) :
    m' = m ∧ (Journal.Spared journal.path (Keeping journal.path file content) f fs' ∨
      ∃ e new, f = Journal.pathFault "Failed to open" journal.path e ∧ journal.writer.isSome ∧
        fs.faults (fs'.performed - 1) .openAppend = some e ∧ new ≠ file ∧
        fs'.Stands journal.path new ∧
        fs'.bytes new = m.owners.snapshot.flatMap Journal.lineBytes) := by
  rw [run_backup hjournal] at h
  rcases hreplace : (journal.replace m.owners.snapshot).run fs with ⟨_ | journal', fs₁⟩ <;>
    rw [hreplace] at h <;> cases h
  exact ⟨rfl, Journal.run_replace_error hkeeping hreplace⟩

/-- Opening the journal after a backup, in either mode, gives back the links that were backed up:
the same link or none under each owner and code, and the owners that have any. No line is
skipped. -/
theorem backup_restores (mode : JournalMode) (hjournal : m.journal = some journal)
    (hbackup : backup.run ⟨m, fs⟩ = (.ok (), ⟨m', fs'⟩))
    (hplan : fs'.faults fs'.performed .openAppend = none) :
    ∃ reopened fs'', («open» journal.path mode).run fs' =
        ({ result := .ok reopened, skipped := [] }, fs'') ∧
      (∀ owner code, reopened.owners.link? owner code = m.owners.link? owner code) ∧
      ∀ owner, reopened.owners.contains owner ↔ ∃ code, (m.owners.link? owner code).isSome := by
  obtain ⟨file, hstands, hbytes, -⟩ := run_backup_ok hjournal hbackup
  have hread : Journal.read (fs'.bytes file) = { records := m.owners.snapshot } := by
    rw [hbytes, Journal.read_lines]
  have hsame := Owners.same_replay_snapshot m.owners
  have hpopulated := Owners.populated_empty.replay m.owners.snapshot
  have hopen : («open» journal.path mode).run fs' = _ := run_open_stands hstands (by rw [hread])
  rw [hplan, hread] at hopen
  refine ⟨_, _, hopen, hsame, fun owner => ?_⟩
  rw [hpopulated.contains_iff]
  exact exists_congr fun code => by rw [hsame owner code]

/-- A store with an empty code, a tombstone and characters that lines or JSON treat specially. -/
def unusual : Memory where
  owners := Owners.replay .empty
    [⟨"\u0085\ufeff", "", "", true⟩, ⟨"", "a\"\\\n\r\x00", "\u2028", false⟩]
  journal := some { path := "links" }

/-- Such a store comes back whole. -/
theorem backup_restores_unusual : ∃ m' fs',
    backup.run ⟨unusual, {}⟩ = (.ok (), ⟨m', fs'⟩) ∧
    ∃ reopened fs'', («open» "links" .append).run fs' =
        ({ result := .ok reopened, skipped := [] }, fs'') ∧
      (∀ owner code, reopened.owners.link? owner code = unusual.owners.link? owner code) ∧
      ∀ owner, reopened.owners.contains owner ↔
        ∃ code, (unusual.owners.link? owner code).isSome := by
  have hsnapshot : unusual.owners.snapshot =
      [⟨"\u0085\ufeff", "", "", true⟩, ⟨"", "a\"\\\n\r\x00", "\u2028", false⟩] :=
    List.mergeSort_of_pairwise (by decide +kernel)
  have hrun : backup.run ⟨unusual, {}⟩ = (Action.onFiles (Journal.replace ⟨"links", none⟩
        [⟨"\u0085\ufeff", "", "", true⟩, ⟨"", "a\"\\\n\r\x00", "\u2028", false⟩]) >>= fun journal =>
        Action.setStore { unusual with journal := some journal }).run ⟨unusual, {}⟩ := by
    rw [← hsnapshot]
    rfl
  have hok : (backup.run ⟨unusual, {}⟩).1.isOk ∧ ((backup.run ⟨unusual, {}⟩).2.files.faults
      (backup.run ⟨unusual, {}⟩).2.files.performed .openAppend).isNone := by
    rw [hrun]
    decide +kernel
  generalize hend : backup.run ⟨unusual, {}⟩ = ended at hok
  obtain ⟨fault | u, m', fs'⟩ := ended
  · cases hok.1
  · have hplan := Option.isNone_iff_eq_none.1 hok.2
    have hjournal : unusual.journal = some { path := "links" } := rfl
    have hrestored := backup_restores .append hjournal hend hplan
    exact ⟨m', fs', rfl, hrestored⟩

end ShortLinks.Memory
