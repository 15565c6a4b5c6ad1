import ShortLinks.Proofs.Store.Twins

/-!
# Backups are canonical

The records of a store come in a backup in one order, strictly ascending by owner and then by code,
and each is one line. So what a backup writes depends on the set of records and on nothing else: not
on the order in which they came into the store or lie in it, not on the mode or the path of the
journal, and not on what its file held before. A store that is opened on such a file has the same
records, and so its own backups write the same file again.
-/

namespace ShortLinks

namespace Owners

variable {a b o : Owners}

/-- A record comes before another in a backup. Texts are compared by the code points of their
characters. -/
def Before (r r' : Record) : Prop := r.owner < r'.owner ∨ r.owner = r'.owner ∧ r.code < r'.code

/-- Of two records not both come before the other. -/
theorem Before.asymm {r r' : Record} (h : Before r r') (h' : Before r' r) : False := by
  obtain h | ⟨howner, h⟩ := h <;> obtain h' | ⟨howner', h'⟩ := h'
  · exact String.lt_asymm h h'
  · exact String.lt_irrefl _ (howner' ▸ h)
  · exact String.lt_irrefl _ (howner ▸ h')
  · exact String.lt_asymm h h'

/-- A text that is not behind another is before it or the same. -/
theorem lt_or_eq_of_le {s t : String} (h : s ≤ t) : s < t ∨ s = t := by
  by_cases ht : t ≤ s
  · exact .inr (String.le_antisymm h ht)
  · exact .inl (String.not_le.1 ht)

/-- Records are put in the order of their owners and, for one owner, of their codes. -/
theorem precedes_iff {r r' : Record} :
    precedes r r' ↔ r.owner < r'.owner ∨ r.owner = r'.owner ∧ r.code ≤ r'.code := by
  simp [precedes]

/-- The order of records is transitive. -/
theorem precedes_trans {r₁ r₂ r₃ : Record} (h : precedes r₁ r₂) (h' : precedes r₂ r₃) :
    precedes r₁ r₃ := by
  rw [precedes_iff] at h h' ⊢
  obtain howner | ⟨howner, hcode⟩ := h <;> obtain howner' | ⟨howner', hcode'⟩ := h'
  · exact .inl (String.lt_trans howner howner')
  · exact .inl (howner' ▸ howner)
  · exact .inl (howner ▸ howner')
  · exact .inr ⟨howner.trans howner', String.le_trans hcode hcode'⟩

/-- Any two records are in some order. -/
theorem precedes_total (r r' : Record) : (precedes r r' || precedes r' r) = true := by
  rw [Bool.or_eq_true, precedes_iff, precedes_iff]
  obtain h | h := String.le_total r.owner r'.owner <;> obtain h | h := lt_or_eq_of_le h
  · exact .inl (.inl h)
  · exact (String.le_total r.code r'.code).imp (.inr ⟨h, ·⟩) (.inr ⟨h.symm, ·⟩)
  · exact .inr (.inl h)
  · exact (String.le_total r.code r'.code).imp (.inr ⟨h.symm, ·⟩) (.inr ⟨h, ·⟩)

/-- Of two records about different links, the one that comes first comes before the other. -/
theorem before_of_precedes {r r' : Record} (h : precedes r r') (hne : key r ≠ key r') :
    Before r r' := by
  obtain howner | ⟨howner, hcode⟩ := precedes_iff.1 h
  · exact .inl howner
  · obtain hcode | hcode := lt_or_eq_of_le hcode
    · exact .inr ⟨howner, hcode⟩
    · exact absurd (by rw [key, key, howner, hcode]) hne

/-- The records of a backup are in strictly ascending order, as no two are about the same link. -/
theorem pairwise_snapshot (o : Owners) : o.snapshot.Pairwise Before := by
  rw [snapshot]
  have hsorted : (o.records.mergeSort precedes).Pairwise fun r r' => precedes r r' :=
    @List.pairwise_mergeSort _ precedes (fun _ _ _ => precedes_trans) precedes_total o.records
  have hperm := (List.mergeSort_perm o.records precedes).map key
  have hdistinct := hperm.nodup_iff.2 (nodup_keys_records o)
  rw [List.Nodup, List.pairwise_map] at hdistinct
  exact hsorted.imp₂ (fun _ _ => before_of_precedes) hdistinct

/-- Maps whose records are the same have the same links. -/
theorem same_of_records (h : ∀ r, r ∈ a.records ↔ r ∈ b.records) : Same a b := by
  have hlink (owner code : String) (link : Link) :
      a.link? owner code = some link ↔ b.link? owner code = some link := by
    have hrecord := h ⟨code, link.url, owner, link.deleted⟩
    rwa [mem_records, mem_records] at hrecord
  intro owner code
  exact Option.ext fun link => hlink owner code link

/-- The order of a backup does not depend on how the links lie in the map. -/
theorem Same.snapshot (h : Same a b) : a.snapshot = b.snapshot := by
  have hperm : a.snapshot.Perm b.snapshot :=
    (List.mergeSort_perm a.records precedes).trans
      (h.records_perm.trans (List.mergeSort_perm b.records precedes).symm)
  exact hperm.eq_of_pairwise (fun _ _ _ _ hlt hgt => (hlt.asymm hgt).elim) (pairwise_snapshot a)
    (pairwise_snapshot b)

end Owners

namespace FileSystem

variable {fs fs' : FileSystem} {path : String} {content : Bytes}

/-- A file with some content stands at a path. -/
def HasFile (fs : FileSystem) (path : String) (content : Bytes) : Prop :=
  ∃ file, fs.Stands path file ∧ fs.bytes file = content

/-- Nothing keeps a journal at a path from being written anew: no operation fails by itself, and the
file that is written first can be made. -/
def Writable (fs : FileSystem) (path : String) : Prop :=
  fs.faults = noFaults ∧ ∃ scratch, fs.slot (path ++ ".tmp") = .ok scratch ∧
    fs.node? scratch ≠ some .directory

/-- A journal can be written anew while names and fault plan are the same. -/
theorem Writable.of_names (h : fs.Writable path) (hfaults : fs'.faults = fs.faults)
    (hnames : fs'.names = fs.names) : fs'.Writable path := by
  obtain ⟨hnone, scratch, hslot, hfree⟩ := h
  refine ⟨hfaults.trans hnone, scratch, (KeepsDirectories.of_names hnames).slot hslot, ?_⟩
  rwa [node?_congr hnames]

end FileSystem

namespace Journal

open FileSystem

variable {j j' : Journal} {fs fs' : FileSystem} {file : FileId} {records : List Record}

/-- A journal that was written anew can be written anew once more. -/
theorem writable_renew (h : (j.renew records).run fs = (.ok file, fs'))
    (hfaults : fs.faults = noFaults) : fs'.Writable j.path := by
  obtain ⟨-, -, hkept⟩ := run_renew_ok h
  obtain ⟨made, grown, hcreate, hgrew, hrename⟩ := run_renew_parts h
  obtain ⟨hscratch, -, -⟩ := Disk.run_create_ok hcreate
  have hscratch' := hscratch.of_names hgrew.names
  obtain ⟨old, new, hold, hnode, hslot, hnew, rfl⟩ := Disk.run_rename_places hscratch' hrename
  obtain ⟨hkeeps, hnodes⟩ := Disk.keepsDirectories_rename hnode hnew
  refine ⟨hkept.trans hfaults, old, hkeeps.slot hold, ?_⟩
  rw [hnodes, if_neg (j.slot_scratch_ne hold hslot), if_pos rfl]
  exact nofun

/-- A journal that was written anew can be so again. -/
theorem writable_replace (h : (j.replace records).run fs = (.ok j', fs'))
    (hfaults : fs.faults = noFaults) : fs'.Writable j.path := by
  obtain ⟨file, fs₁, hrenew, htakeUp⟩ := run_bind_ok h
  have hwritable := writable_renew hrenew hfaults
  rw [run_takeUp (run_renew_ok hrenew).1] at htakeUp
  split at htakeUp
  · cases htakeUp
    exact hwritable
  · split at htakeUp <;> cases htakeUp
    exact hwritable.of_names rfl rfl

end Journal

namespace Memory

open FileSystem

variable {m m₁ m₂ m' m₁' m₂' : Memory} {fs fs₁ fs₂ fs' fs₁' fs₂' : FileSystem}
  {journal journal₁ journal₂ : Journal} {path : String} {mode : JournalMode} {o : Owners}

/-- A backup that succeeds writes the lines of the snapshot to the path of the journal. -/
theorem hasFile_backup (hjournal : m.journal = some journal)
    (h : backup.run ⟨m, fs⟩ = (.ok (), ⟨m', fs'⟩)) :
    fs'.HasFile journal.path (m.owners.snapshot.flatMap Journal.lineBytes) := by
  obtain ⟨file, hstands, hbytes, -⟩ := run_backup_ok hjournal h
  exact ⟨file, hstands, hbytes⟩

/-- A journal that was backed up can be so again. -/
theorem writable_backup (hjournal : m.journal = some journal)
    (h : backup.run ⟨m, fs⟩ = (.ok (), ⟨m', fs'⟩)) (hfaults : fs.faults = noFaults) :
    fs'.Writable journal.path := by
  rw [run_backup hjournal] at h
  rcases hreplace : (journal.replace m.owners.snapshot).run fs with ⟨_ | _, _⟩ <;>
    rw [hreplace] at h <;> cases h
  exact Journal.writable_replace hreplace hfaults

/-- A store that is opened on a backup has the links that were backed up, and its journal is at the
path of the backup. -/
theorem open_snapshot {skipped : List Journal.Skipped}
    (hfile : fs.HasFile path (o.snapshot.flatMap Journal.lineBytes))
    (h : («open» path mode).run fs = ({ result := .ok m, skipped }, fs')) :
    skipped = [] ∧ m.owners.Same o ∧ (∃ j, m.journal = some j ∧ j.path = path) ∧ fs' = fs.tick := by
  obtain ⟨file, hstands, hbytes⟩ := hfile
  have hread : Journal.read (fs.bytes file) = { records := o.snapshot } := by
    rw [hbytes, Journal.read_lines]
  rw [run_open_stands hstands (by rw [hread]), hread] at h
  split at h <;> cases h
  exact ⟨rfl, Owners.same_replay_snapshot o, ⟨_, rfl, rfl⟩, rfl⟩

/-- A backup of a store that was opened on a backup writes it again. -/
theorem backup_reopened {skipped : List Journal.Skipped} {fs'' : FileSystem}
    (hfile : fs.HasFile path (o.snapshot.flatMap Journal.lineBytes))
    (hopen : («open» path mode).run fs = ({ result := .ok m, skipped }, fs'))
    (hbackup : backup.run ⟨m, fs₁⟩ = (.ok (), ⟨m', fs''⟩)) :
    fs''.HasFile path (o.snapshot.flatMap Journal.lineBytes) := by
  obtain ⟨-, hsame, ⟨j, hjournal, rfl⟩, -⟩ := open_snapshot hfile hopen
  rw [← hsame.snapshot]
  exact hasFile_backup hjournal hbackup

/-- Where a journal can be written anew, a backup can be opened and backed up again. -/
theorem reopened_backup (mode : JournalMode)
    (hfile : fs.HasFile path (o.snapshot.flatMap Journal.lineBytes)) (hwritable : fs.Writable path) :
    ∃ reopened fs' m' fs'',
      («open» path mode).run fs = ({ result := .ok reopened }, fs') ∧
      backup.run ⟨reopened, fs'⟩ = (.ok (), ⟨m', fs''⟩) := by
  have htick : fs.tick.Writable path := hwritable.of_names rfl rfl
  obtain ⟨hfaults, scratch, hslot, hfree⟩ := htick
  obtain ⟨file, hstands, hbytes⟩ := hfile
  have hread : Journal.read (fs.bytes file) = { records := o.snapshot } := by
    rw [hbytes, Journal.read_lines]
  have hopen : («open» path mode).run fs = _ := run_open_stands hstands (by rw [hread])
  rw [hwritable.1, hread] at hopen
  obtain ⟨w, -, -, -, hat⟩ := exists_at hopen hwritable.1 hslot hfree
  obtain ⟨m', fs'', hbackup, -⟩ := hat.run_backup
  exact ⟨_, _, m', fs'', hopen, hbackup⟩

/-- Two stores with the same records, however they lie in memory, whatever their journals are and
whatever happened before, back up to the same content: one line for each record, each of them ended,
in strictly ascending order. Wherever this content is opened, no line is skipped, and a backup of
the store writes this content again; where nothing fails, there is such a backup. -/
theorem backups_canonical (hrecords : ∀ r, r ∈ m₁.owners.records ↔ r ∈ m₂.owners.records)
    (hjournal₁ : m₁.journal = some journal₁) (hjournal₂ : m₂.journal = some journal₂)
    (hbackup₁ : backup.run ⟨m₁, fs₁⟩ = (.ok (), ⟨m₁', fs₁'⟩))
    (hbackup₂ : backup.run ⟨m₂, fs₂⟩ = (.ok (), ⟨m₂', fs₂'⟩)) :
    ∃ (records : List Record) (content : Bytes),
      fs₁'.HasFile journal₁.path content ∧ fs₂'.HasFile journal₂.path content ∧
      (records.Perm m₁.owners.records ∧ records.Pairwise Owners.Before ∧
        content = records.flatMap Journal.lineBytes ∧ Text.Terminated content ∧
        Text.splitLines content = (records.map fun r => Text.encode r.lineText) ∧
        Journal.read content = { records }) ∧
      (∀ path mode fs m skipped fs', fs.HasFile path content →
        («open» path mode).run fs = ({ result := .ok m, skipped }, fs') →
        skipped = [] ∧ ∀ fs m' after,
          backup.run ⟨m, fs⟩ = (.ok (), ⟨m', after⟩) → after.HasFile path content) ∧
      (∀ path mode fs, fs.HasFile path content → fs.Writable path →
        ∃ m fs' m' after, («open» path mode).run fs = ({ result := .ok m }, fs') ∧
          backup.run ⟨m, fs'⟩ = (.ok (), ⟨m', after⟩) ∧ after.HasFile path content) ∧
      (fs₁.faults = noFaults → fs₁'.Writable journal₁.path) := by
  have hsnapshot := (Owners.same_of_records hrecords).snapshot
  have hfile₂ := hasFile_backup hjournal₂ hbackup₂
  rw [← hsnapshot] at hfile₂
  refine ⟨m₁.owners.snapshot, _, hasFile_backup hjournal₁ hbackup₁, hfile₂,
    ⟨List.mergeSort_perm m₁.owners.records Owners.precedes, Owners.pairwise_snapshot m₁.owners, rfl,
      Journal.terminated_lines _, Journal.splitLines_lines _, Journal.read_lines _⟩, ?_, ?_,
    writable_backup hjournal₁ hbackup₁⟩
  · intro path mode fs m skipped fs' hfile hopen
    exact ⟨(open_snapshot hfile hopen).1, fun _ _ _ => backup_reopened hfile hopen⟩
  · intro path mode fs hfile hwritable
    obtain ⟨m, fs', m', after, hopen, hbackup⟩ := reopened_backup mode hfile hwritable
    exact ⟨m, fs', m', after, hopen, hbackup, backup_reopened hfile hopen hbackup⟩

/-- A store whose two links came in ascending order, with a journal that is written as a whole. -/
def ascending : Memory where
  owners := Owners.replay .empty [⟨"a", "http://a/", "u", true⟩, ⟨"b", "http://b/", "u", false⟩]
  journal := some { path := "ascending" }

/-- A store with the same two links, of which the second came first and one was deleted at last, and
with a journal that has a file at hand. -/
def descending : Memory where
  owners := Owners.replay .empty
    [⟨"b", "http://b/", "u", false⟩, ⟨"a", "http://a/", "u", false⟩, ⟨"a", "http://a/", "u", true⟩]
  journal := some { path := "descending", writer := some 0 }

/-- A backup succeeds when the journal can be written as a whole. -/
theorem exists_backup (hjournal : m.journal = some journal)
    (h : ((journal.replace m.owners.snapshot).run fs).1.isOk) :
    ∃ m' fs', backup.run ⟨m, fs⟩ = (.ok (), ⟨m', fs'⟩) := by
  rw [run_backup hjournal]
  rcases hreplace : (journal.replace m.owners.snapshot).run fs with ⟨fault | journal', fs'⟩
  · rw [hreplace] at h
    cases h
  · exact ⟨_, fs', rfl⟩

/-- Both stores back up to the same content. -/
theorem backups_canonical_ascending : ∃ m₁ fs₁ m₂ fs₂ content,
    backup.run ⟨ascending, {}⟩ = (.ok (), ⟨m₁, fs₁⟩) ∧
    backup.run ⟨descending, {}⟩ = (.ok (), ⟨m₂, fs₂⟩) ∧
    fs₁.HasFile "ascending" content ∧ fs₂.HasFile "descending" content := by
  have hrecords (r : Record) : r ∈ ascending.owners.records ↔ r ∈ descending.owners.records := by
    have hfirst : ascending.owners.records =
      [⟨"a", "http://a/", "u", true⟩, ⟨"b", "http://b/", "u", false⟩] := by decide +kernel
    have hsecond : descending.owners.records =
      [⟨"b", "http://b/", "u", false⟩, ⟨"a", "http://a/", "u", true⟩] := by decide +kernel
    rw [hfirst, hsecond]
    simp [or_comm]
  have hsnapshot : ascending.owners.snapshot =
      [⟨"a", "http://a/", "u", true⟩, ⟨"b", "http://b/", "u", false⟩] :=
    List.mergeSort_of_pairwise (by decide +kernel)
  have hjournal₁ : ascending.journal = some { path := "ascending" } := rfl
  have hjournal₂ : descending.journal = some { path := "descending", writer := some 0 } := rfl
  obtain ⟨m₁, fs₁, hbackup₁⟩ : ∃ m fs, backup.run ⟨ascending, {}⟩ = (.ok (), ⟨m, fs⟩) := by
    apply exists_backup hjournal₁
    rw [hsnapshot]
    decide +kernel
  obtain ⟨m₂, fs₂, hbackup₂⟩ : ∃ m fs, backup.run ⟨descending, {}⟩ = (.ok (), ⟨m, fs⟩) := by
    apply exists_backup hjournal₂
    rw [← (Owners.same_of_records hrecords).snapshot, hsnapshot]
    decide +kernel
  obtain ⟨_, content, hfile₁, hfile₂, -⟩ :=
    backups_canonical hrecords hjournal₁ hjournal₂ hbackup₁ hbackup₂
  exact ⟨m₁, fs₁, m₂, fs₂, content, hbackup₁, hbackup₂, hfile₁, hfile₂⟩

end Memory

end ShortLinks
