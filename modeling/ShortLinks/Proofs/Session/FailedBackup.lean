import ShortLinks.Proofs.Session.Durability
import ShortLinks.Proofs.Session.Unended
import ShortLinks.Proofs.Store.Written

/-!
# Backups that fail

A backup takes one operation on the files after another, and any of them may fail. It reports a fault
then, and the store in memory is what it was. If the new file had not taken the place of the journal
yet, everything is as if no backup had been tried: the file at the path of the journal holds what it
held, what is called later adds its records to this file, and opening it again gives the links of
the store. If the new file was in its place and could not be opened, it holds the lines of all links,
but the store goes on with the file that was replaced. What is acknowledged from then on does not
reach the path.
-/

namespace ShortLinks

namespace Session

open FileSystem Journal

variable {path : String} {m m' : Memory} {fs fs' : FileSystem} {file : FileId} {s s' : Session}
  {content : Bytes} {answer : Answer} {st : Step} {history : List (Step × Answer)}

/-- Calls of the store itself, but for a backup. -/
def Step.IsStored : Step → Prop
  | .add .. | .addBatch .. | .get _ | .list _ | .delete .. | .stats => True
  | _ => False

/-- Calls of the store, and backups that failed before a new file took the place of the journal. -/
def Resilient (path : String) (st : Step) (answer : Answer) : Prop :=
  st.IsStored ∨ ∃ f, st = .backup ∧ answer = .fault f ∧ ¬Unopened path f

/-- What a step that was answered so has added to the journal. Of a batch that reports a fault some
links may have been written. -/
def Logs (links : Owners) : Step → Answer → List Record → Prop
  | .add code url owner, .reply _, records => records = [{ code, url, owner }]
  | .delete code owner, .reply _, records => records = Memory.tombstones links code owner
  | .addBatch urls owner, .reply _, records => records = Memory.additions urls owner
  | .addBatch urls owner, _, records => records.Sublist (Memory.additions urls owner)
  | _, _, records => records = []

/-- What steps that were answered so have added to the journal, one step after another. -/
inductive Added : Owners → List (Step × Answer) → List Record → Prop
  | nil (links : Owners) : Added links [] []
  | cons {links : Owners} {step : Step} {answer : Answer} {first rest : List Record}
      {later : List (Step × Answer)} (hstep : Logs links step answer first)
      (hlater : Added (links.replay first) later rest) :
      Added links ((step, answer) :: later) (first ++ rest)

/-- An addition logs its record when it succeeds. -/
theorem logs_add (links : Owners) (code url owner : String) (result : Except Fault Unit) :
    Logs links (.add code url owner) (.ofResult (fun _ => .done) result)
      (if result.isOk then [{ code, url, owner }] else []) := by
  cases result <;> rfl

/-- A deletion logs its tombstone when it succeeds and there is a link to delete. -/
theorem logs_delete (links : Owners) (code owner : String) (result : Except Fault Unit) :
    Logs links (.delete code owner) (.ofResult (fun _ => .done) result)
      (if result.isOk then Memory.tombstones links code owner else []) := by
  cases result <;> rfl

/-- Of a batch that is accepted all records were written, and of another one some. -/
theorem logs_addBatch (m : Memory) (urls : Keyed String String) (owner : String)
    (fs : FileSystem) :
    Logs m.owners (.addBatch urls owner)
      (.ofResult (fun _ => .done) ((Memory.addBatch urls owner).run ⟨m, fs⟩).1)
      (Memory.written ((m.logAll (m.fresh urls owner)).run fs).1) := by
  have hfresh : (m.fresh urls owner).Sublist (Memory.additions urls owner) :=
    List.filter_sublist.map _
  have hwritten := Memory.written_sublist ((m.logAll (m.fresh urls owner)).run fs).1
  rw [Memory.map_fst_logAll] at hwritten
  rw [Memory.run_addBatch]
  simp only
  cases hverdict : Memory.verdict owner (m.known urls owner)
      (Memory.failures ((m.logAll (m.fresh urls owner)).run fs).1) with
  | error f => exact hwritten.trans hfresh
  | ok _ =>
    obtain ⟨hknown, hfailures⟩ := Memory.verdict_eq_ok_iff.1 hverdict
    change Memory.written _ = Memory.additions urls owner
    rw [Memory.written_of_failures_eq_nil hfailures, Memory.map_fst_logAll,
      Memory.fresh_of_known_eq_nil hknown]

/-- A call writes what it says it does. -/
theorem Appends.log (h : Appends path file m s) (hstored : st.IsStored)
    (hstep : (Session.step st).run s = (answer, s')) :
    ∃ m' records, Appends path file m' s' ∧
      Memory.Wrote file records m s.setting.files m' s'.setting.files ∧
      Logs m.owners st answer records ∧ Acknowledges m.owners st answer m'.owners := by
  obtain ⟨scheme, place, ⟨store, fs⟩⟩ := s
  obtain ⟨hstore, hjournal⟩ := h
  cases hstore
  cases st with
  | add code url owner =>
    have hwrote := Memory.grown_add hjournal code url owner fs
    have hacknowledges := acknowledges_add m fs code url owner
    rw [Session.step, Store.storage, run_act_memory] at hstep
    cases hstep
    exact ⟨_, _, ⟨rfl, hwrote.journal.trans hjournal⟩, hwrote, logs_add _ _ _ _ _,
      hacknowledges⟩
  | addBatch urls owner =>
    have hwrote := Memory.grown_addBatch hjournal urls owner fs
    have hacknowledges := acknowledges_addBatch m fs urls owner
    rw [Session.step, Store.storage, run_act_memory] at hstep
    cases hstep
    exact ⟨_, _, ⟨rfl, hwrote.journal.trans hjournal⟩, hwrote,
      logs_addBatch m urls owner fs, hacknowledges⟩
  | delete code owner =>
    have hwrote := Memory.grown_delete hjournal code owner fs
    have hacknowledges := acknowledges_delete m fs code owner
    rw [Session.step, Store.storage, run_act_memory] at hstep
    cases hstep
    exact ⟨_, _, ⟨rfl, hwrote.journal.trans hjournal⟩, hwrote, logs_delete _ _ _ _,
      hacknowledges⟩
  | get code =>
    rw [Session.step, Store.storage, Memory.storage, run_act_answer] at hstep
    cases hstep
    exact ⟨m, [], ⟨rfl, hjournal⟩, .refl file m fs, rfl, Owners.Same.refl _⟩
  | list owner =>
    rw [Session.step, Store.storage, Memory.storage, run_act_answer] at hstep
    cases hstep
    exact ⟨m, [], ⟨rfl, hjournal⟩, .refl file m fs, rfl, Owners.Same.refl _⟩
  | stats =>
    rw [Session.step, Store.storage, Memory.storage, run_act_answer] at hstep
    cases hstep
    exact ⟨m, [], ⟨rfl, hjournal⟩, .refl file m fs, rfl, Owners.Same.refl _⟩
  | _ => cases hstored

/-- A session adds the records of its store to the file at the path, which is kept. -/
structure Continues (path : String) (file : FileId) (content : Bytes) (m : Memory) (s : Session) :
    Prop where
  appends : Appends path file m s
  keeping : Keeping path file content s.setting.files

/-- A call, or a backup that fails before a new file takes the place of the journal, adds what it
says to the file at the path. -/
theorem Continues.step (h : Continues path file content m s) (hmay : Resilient path st answer)
    (hstep : (Session.step st).run s = (answer, s')) :
    ∃ m' records, Continues path file (content ++ records.flatMap Journal.lineBytes) m' s' ∧
      m'.journal = m.journal ∧ m'.owners = m.owners.replay records ∧
      Logs m.owners st answer records ∧ Acknowledges m.owners st answer m'.owners := by
  obtain hstored | ⟨f, rfl, rfl, hopened⟩ := hmay
  · obtain ⟨m', records, happends, hwrote, hlogs, hacknowledges⟩ := h.appends.log hstored hstep
    exact ⟨m', records, ⟨happends, hwrote.keeping h.keeping⟩, hwrote.journal,
      hwrote.owners, hlogs, hacknowledges⟩
  · obtain ⟨scheme, place, ⟨store, fs⟩⟩ := s
    obtain ⟨⟨hstore, hjournal⟩, hkeeping⟩ := h
    cases hstore
    rw [Session.step, Store.storage, run_act_memory] at hstep
    rcases hbackup : Memory.storage.backup.run ⟨m, fs⟩ with ⟨f' | ⟨⟩, m', fs'⟩ <;>
      rw [hbackup] at hstep <;> cases hstep
    obtain ⟨rfl, ⟨-, hkeeping'⟩ | ⟨e, new, hf, -⟩⟩ :=
      Memory.backup_failed hjournal hkeeping hbackup
    · refine ⟨m', [], ⟨⟨rfl, hjournal⟩, ?_⟩, rfl, rfl, rfl, Owners.Same.refl _⟩
      rw [List.flatMap_nil, List.append_nil]
      exact hkeeping'
    · exact absurd ⟨e, hf⟩ hopened

/-- A run of such steps adds what they say, in order. -/
theorem Continues.run (h : Continues path file content m s)
    (hrun : Leads (Resilient path) s history s') :
    ∃ m' records, Continues path file (content ++ records.flatMap Journal.lineBytes) m' s' ∧
      m'.journal = m.journal ∧ m'.owners = m.owners.replay records ∧
      Added m.owners history records ∧ Acknowledged m.owners history m'.owners := by
  induction hrun generalizing m content with
  | nil => exact ⟨m, [], by simpa using h, rfl, rfl, .nil _, .nil _⟩
  | cons hstep hmay _ ih =>
    obtain ⟨next, first, hnext, hjournal, howners, hlogs, hacknowledges⟩ := h.step hmay hstep
    obtain ⟨last, rest, hlast, hjournal', howners', hadded, hacknowledged⟩ := ih hnext
    refine ⟨last, first ++ rest, ?_, hjournal'.trans hjournal, ?_, .cons hlogs (howners ▸ hadded),
      .cons hacknowledges hacknowledged⟩
    · rw [List.flatMap_append, ← List.append_assoc]
      exact hlast
    · rw [howners', howners, Owners.replay_append]

/-- Opening again a file that was only added to gives what the records restore from the content that
they were written behind. -/
theorem run_reopen_keeping {records : List Record}
    (h : Keeping path file (content ++ records.flatMap Journal.lineBytes) fs)
    (hcomplete : (Journal.read content).complete) (mode : JournalMode)
    (hplan : fs.faults fs.performed .openAppend = none) :
    ∃ reopened skipped files', (Memory.open path mode).run fs =
        ({ result := .ok reopened, skipped }, files') ∧
      reopened.owners = restored content records := by
  obtain ⟨hread, hrecords⟩ := Journal.read_behind hcomplete records
  rw [← h.bytes] at hread hrecords
  have hreopen : (Memory.open path mode).run fs = _ := Memory.run_open_stands h.stands hread
  rw [hplan] at hreopen
  exact ⟨_, _, _, hreopen, by rw [restored, ← hrecords]⟩

/-- A run of calls writes to the file that the journal has at hand, and to no other. -/
theorem Appends.logs (h : Appends path file m s)
    (hrun : Leads (fun st _ => st.IsStored) s history s') :
    ∃ m' records, Appends path file m' s' ∧
      Memory.Wrote file records m s.setting.files m' s'.setting.files := by
  induction hrun generalizing m with
  | nil => exact ⟨m, [], h, .refl file m _⟩
  | cons hstep hmay _ ih =>
    obtain ⟨next, first, hnext, hfirst, -⟩ := h.log hmay hstep
    obtain ⟨last, rest, hlast, hrest⟩ := ih hnext
    exact ⟨last, first ++ rest, hlast, hfirst.trans hrest⟩

/-- A backup on a store whose file stands at the path of its journal, in either mode. It succeeds
only if every operation was let through. If it fails, the store in memory is as it was, and either of
two things has happened:

* The file stands at the path and holds what it held. Whatever is called from then on, further
  backups that end so among it, what is acknowledged has its records behind that, in order; and if
  the file gave the links of the store before, opening it again gives those of the store afterwards.
* The last operation was refused: another file stands at the path and holds the lines of all links,
  and the store has not opened it. Whatever is called from then on, this file does not change.

The fault says which. -/
theorem failed_backup_spares (scheme : Scheme) (place : String) {writer : Option FileId}
    {result : Except Fault Unit} (hjournal : m.journal = some { path, writer })
    (hwriter : ∀ id ∈ writer, id = file) (hkeeping : Keeping path file content fs)
    (hbackup : Memory.backup.run ⟨m, fs⟩ = (result, ⟨m', fs'⟩)) :
    m'.owners = m.owners ∧
    (result = .ok () → ∃ writes new, Granted (operations { path, writer } writes) fs fs' ∧
      fs'.Stands path new ∧ fs'.bytes new = m.owners.snapshot.flatMap lineBytes ∧
      m'.journal = some { path, writer := writer.map fun _ => new }) ∧
    ∀ f, result = .error f → m' = m ∧
      ((¬Unopened path f ∧ fs'.Stands path file ∧ fs'.bytes file = content ∧
        (writer.isSome → ∀ history s,
          Leads (Resilient path) ⟨scheme, place, .memory m, fs'⟩ history s →
          ∃ last records, s.setting.store = .memory last ∧ Added m.owners history records ∧
            Acknowledged m.owners history last.owners ∧ s.setting.files.Stands path file ∧
            s.setting.files.bytes file = content ++ records.flatMap lineBytes ∧
            (Memory.Durable path m fs file → ∀ mode,
              s.setting.files.faults s.setting.files.performed .openAppend = none →
              ∃ reopened skipped files', (Memory.open path mode).run s.setting.files =
                  ({ result := .ok reopened, skipped }, files') ∧
                reopened.owners.Agree last.owners))) ∨
      ∃ e new, f = pathFault "Failed to open" path e ∧ writer.isSome ∧
        fs.faults (fs'.performed - 1) .openAppend = some e ∧ new ≠ file ∧ fs'.Stands path new ∧
        fs'.bytes new = m.owners.snapshot.flatMap lineBytes ∧
        ∀ history s, Leads (fun st _ => st.IsStored) ⟨scheme, place, .memory m, fs'⟩ history s →
          s.setting.files.Stands path new ∧
          s.setting.files.bytes new = m.owners.snapshot.flatMap lineBytes) := by
  have howners := Memory.owners_backup m fs
  rw [hbackup] at howners
  refine ⟨howners, ?_, ?_⟩
  · rintro rfl
    obtain ⟨new, hstands, hbytes, rfl⟩ := Memory.run_backup_ok hjournal hbackup
    obtain ⟨writes, hgranted⟩ := Memory.granted_backup hjournal hbackup
    exact ⟨writes, new, hgranted, hstands, hbytes, rfl⟩
  · rintro f rfl
    obtain ⟨rfl, ⟨hopened, hkeeping'⟩ | ⟨e, new, hf, hsome, hplan, hnew, hstands, hbytes⟩⟩ :=
      Memory.backup_failed hjournal hkeeping hbackup
    · refine ⟨rfl, .inl ⟨hopened, hkeeping'.stands, hkeeping'.bytes, fun hsome history s hrun => ?_⟩⟩
      obtain ⟨id, rfl⟩ := Option.isSome_iff_exists.1 hsome
      obtain rfl := hwriter id rfl
      have hcontinues : Continues path id content m' ⟨scheme, place, .memory m', fs'⟩ :=
        ⟨⟨rfl, hjournal⟩, hkeeping'⟩
      obtain ⟨last, records, hlast, hsame, hgrown, hadded, hacknowledged⟩ := hcontinues.run hrun
      refine ⟨last, records, hlast.appends.store, hadded, hacknowledged, hlast.keeping.stands,
        hlast.keeping.bytes, fun hdurable mode hplan => ?_⟩
      rw [← hkeeping.bytes] at hlast
      have hdurable' := hdurable.of_keeping hsame hgrown hlast.keeping
      have hreopen := hdurable'.run_open mode
      rw [hplan] at hreopen
      exact ⟨_, _, _, hreopen,
        hdurable'.links.agree (Memory.populated_linksIn _ _) hdurable'.populated⟩
    · refine ⟨rfl, .inr ⟨e, new, hf, hsome, hplan, hnew, hstands, hbytes, fun history s hrun => ?_⟩⟩
      obtain ⟨id, rfl⟩ := Option.isSome_iff_exists.1 hsome
      obtain rfl := hwriter id rfl
      have happends : Appends path id m' ⟨scheme, place, .memory m', fs'⟩ := ⟨rfl, hjournal⟩
      obtain ⟨last, records, -, hwrote⟩ := happends.logs hrun
      refine ⟨hstands.of_names hwrote.grew.names, ?_⟩
      rw [FileSystem.bytes, hwrote.grew.elsewhere new hnew]
      exact hbytes

/-- The operation with this number is refused, if it is of this kind. -/
def refusing (number : Nat) (operation : Operation) : FaultPlan :=
  fun n op => if n = number ∧ op = operation then some .tooLarge else none

/-- Files with a journal of one record, whose line has ended. -/
def oneEnded (faults : FaultPlan) : FileSystem where
  names := Keyed.empty.insert ["links"] (.file 0)
  contents := [.octets (lineBytes firstLink)]
  faults := faults

/-- The snapshot of the store with one link is the record of it. -/
theorem snapshot_oneLink : oneLink.owners.snapshot = [firstLink] :=
  List.mergeSort_of_pairwise (List.pairwise_singleton _ _)

/-- A journal that is the only file is kept, whatever it holds. -/
theorem keeping_only (fs : FileSystem) (hnames : fs.names = (oneEnded noFaults).names)
    (hcontents : fs.contents = [.octets content]) : Keeping "links" 0 content fs := by
  have hkeeps : KeepsDirectories (oneEnded noFaults) fs := .of_names hnames
  have hslot : (oneEnded noFaults).slot "links" = .ok ["links"] := by decide +kernel
  have hscratch : (oneEnded noFaults).slot "links.tmp" = .ok ["links.tmp"] := by decide +kernel
  refine ⟨⟨["links"], hkeeps.slot hslot, ?_⟩, ?_, ?_, ?_⟩
  · rw [node?_congr hnames]
    rfl
  · rw [hcontents]
    exact Nat.one_pos
  · rintro ⟨place, hplace, hnode⟩
    cases (hkeeps.slot hscratch).symm.trans hplace
    rw [node?_congr hnames] at hnode
    cases hnode
  · rw [FileSystem.bytes, FileSystem.content, hcontents]
    rfl

/-- The store with one link stands on a journal that gives this link. -/
theorem durable_oneEnded (faults : FaultPlan) :
    Memory.Durable "links" oneLink (oneEnded faults) 0 := by
  have hkeeping : Keeping "links" 0 (lineBytes firstLink) (oneEnded faults) :=
    keeping_only _ rfl rfl
  have hread : Journal.read ((oneEnded faults).bytes 0) = { records := [firstLink] } := by
    rw [hkeeping.bytes]
    simpa using Journal.read_lines [firstLink]
  refine ⟨rfl, hkeeping.stands, ?_, by rw [hread], ?_, Owners.populated_empty.put firstLink⟩
  · rw [hkeeping.bytes]
    exact Journal.terminated_lineBytes firstLink
  · rw [Memory.linksIn, hread]
    exact Owners.Same.refl _

/-- A backup, and then a link is added. -/
def backupThenAdd (files : FileSystem) : Except Fault Unit × Except Fault Unit × Setting Memory :=
  let ended := Memory.backup.run ⟨oneLink, files⟩
  (ended.1, (Memory.add "b" "http://b/" "u").run ended.2)

/-- Where the backup fails and the link is accepted, a session can go on so. -/
theorem leads_backupThenAdd {files : FileSystem} {f : Fault}
    (h : (backupThenAdd files).1 = .error f ∧ (backupThenAdd files).2.1 = .ok ()) :
    ∃ fs s, Memory.backup.run ⟨oneLink, files⟩ = (.error f, ⟨oneLink, fs⟩) ∧
      s.setting.files = (backupThenAdd files).2.2.files ∧
      ∀ may, may (.add "b" "http://b/" "u") (.reply .done) →
        Leads may ⟨.digest, "links", .memory oneLink, fs⟩
          [(.add "b" "http://b/" "u", .reply .done)] s := by
  rcases hbackup : Memory.backup.run ⟨oneLink, files⟩ with ⟨result, m, fs⟩
  rw [backupThenAdd, hbackup] at h ⊢
  obtain ⟨herror, hadd⟩ := h
  cases herror
  obtain rfl : m = oneLink := by
    rw [Memory.run_backup rfl] at hbackup
    split at hbackup <;> cases hbackup
    rfl
  rcases hadded : (Memory.add "b" "http://b/" "u").run ⟨oneLink, fs⟩ with ⟨result, m, fs'⟩
  rw [hadded] at hadd
  cases hadd
  have hstep : (Session.step (.add "b" "http://b/" "u")).run
      ⟨.digest, "links", .memory oneLink, fs⟩ =
        (.reply .done, ⟨.digest, "links", .memory m, fs'⟩) := by
    rw [Session.step, Store.storage, run_act_memory, Memory.storage]
    simp only [hadded]
    rfl
  exact ⟨fs, _, rfl, rfl, fun may hmay => .cons hstep hmay (.nil _)⟩

/-- A write is refused during a backup: the link that is added afterwards is restored. -/
theorem failed_backup_spares_refused : ∃ fs s last reopened skipped files',
    Memory.backup.run ⟨oneLink, oneEnded (refusing 1 .write)⟩ =
      (.error ⟨.fileOperation, "File too large (os error 27)"⟩, ⟨oneLink, fs⟩) ∧
    Leads (Resilient "links") ⟨.digest, "links", .memory oneLink, fs⟩
      [(.add "b" "http://b/" "u", .reply .done)] s ∧
    s.setting.store = .memory last ∧
    last.owners.Same (oneLink.owners.put ⟨"b", "http://b/", "u", false⟩) ∧
    (Memory.open "links" .append).run s.setting.files =
      ({ result := .ok reopened, skipped }, files') ∧
    reopened.owners.Agree last.owners := by
  have hrun : ((backupThenAdd (oneEnded (refusing 1 .write))).1 =
        .error ⟨.fileOperation, "File too large (os error 27)"⟩ ∧
      (backupThenAdd (oneEnded (refusing 1 .write))).2.1 = .ok ()) ∧
      (backupThenAdd (oneEnded (refusing 1 .write))).2.2.files.faults
        (backupThenAdd (oneEnded (refusing 1 .write))).2.2.files.performed .openAppend = none := by
    rw [backupThenAdd, Memory.run_backup rfl, snapshot_oneLink]
    decide +kernel
  obtain ⟨fs, s, hbackup, hfiles, hleads⟩ := leads_backupThenAdd hrun.1
  have hleads := hleads (Resilient "links") (.inl trivial)
  have hwriter : ∀ id ∈ oneLink.journal.bind Journal.writer, id = 0 := by
    rintro id ⟨⟩
    rfl
  obtain ⟨-, -, hfailed⟩ := failed_backup_spares .digest "links" rfl hwriter
    (keeping_only (oneEnded (refusing 1 .write)) rfl rfl) hbackup
  obtain ⟨-, ⟨-, -, -, hlater⟩ | ⟨e, new, hf, -⟩⟩ := hfailed _ rfl
  · obtain ⟨last, records, hstore, -, hacknowledged, -, -, hreopen⟩ := hlater rfl _ s hleads
    obtain ⟨reopened, skipped, files', hopened, hagree⟩ :=
      hreopen (durable_oneEnded _) .append (by rw [hfiles]; exact hrun.2)
    refine ⟨fs, s, last, reopened, skipped, files', hbackup, hleads, hstore, ?_, hopened, hagree⟩
    obtain ⟨⟩ | ⟨⟨-, hsame⟩, ⟨⟩⟩ := hacknowledged
    exact hsame
  · exact absurd ⟨e, hf⟩ (not_unopened_toFault .tooLarge)

/-- Files with a journal of one record, whose line has not ended. -/
def unendedWith (faults : FaultPlan) : FileSystem := { oneUnended with faults }

/-- A backup fails because its new file cannot be opened, or because a write is refused and the last
line of the journal had not ended. In both cases a link is accepted afterwards that is not there when
the journal is opened again. -/
theorem acknowledged_after_failed_backup_lost :
    (∃ fs s reopened skipped files',
      Memory.backup.run ⟨oneLink, oneEnded (refusing 4 .openAppend)⟩ =
        (.error (pathFault "Failed to open" "links" .tooLarge), ⟨oneLink, fs⟩) ∧
      Leads (fun st _ => st.IsStored) ⟨.digest, "links", .memory oneLink, fs⟩
        [(.add "b" "http://b/" "u", .reply .done)] s ∧
      (Memory.open "links" .append).run s.setting.files =
        ({ result := .ok reopened, skipped }, files') ∧
      reopened.owners.link? "u" "b" = none) ∧
    ∃ fs s reopened skipped files',
      Memory.backup.run ⟨oneLink, unendedWith (refusing 1 .write)⟩ =
        (.error ⟨.fileOperation, "File too large (os error 27)"⟩, ⟨oneLink, fs⟩) ∧
      Leads (Resilient "links") ⟨.digest, "links", .memory oneLink, fs⟩
        [(.add "b" "http://b/" "u", .reply .done)] s ∧
      (Memory.open "links" .append).run s.setting.files =
        ({ result := .ok reopened, skipped }, files') ∧
      reopened.owners.link? "u" "a" = none ∧ reopened.owners.link? "u" "b" = none := by
  constructor
  · have hrun : ((backupThenAdd (oneEnded (refusing 4 .openAppend))).1 =
          .error (pathFault "Failed to open" "links" .tooLarge) ∧
        (backupThenAdd (oneEnded (refusing 4 .openAppend))).2.1 = .ok ()) ∧
        (backupThenAdd (oneEnded (refusing 4 .openAppend))).2.2.files.faults
          (backupThenAdd (oneEnded (refusing 4 .openAppend))).2.2.files.performed .openAppend =
            none := by
      rw [backupThenAdd, Memory.run_backup rfl, snapshot_oneLink]
      decide +kernel
    obtain ⟨fs, s, hbackup, hfiles, hleads⟩ := leads_backupThenAdd hrun.1
    have hleads := hleads (fun st _ => st.IsStored) trivial
    obtain ⟨-, ⟨hopened, -⟩ | ⟨e, new, -, -, -, hnew, hstands, hbytes⟩⟩ :=
      Memory.backup_failed rfl (keeping_only (oneEnded (refusing 4 .openAppend)) rfl rfl)
        hbackup
    · exact absurd ⟨_, rfl⟩ hopened
    · have happends : Appends "links" 0 oneLink ⟨.digest, "links", .memory oneLink, fs⟩ :=
        ⟨rfl, rfl⟩
      obtain ⟨last, records, -, hwrote⟩ := happends.logs hleads
      have hread : Journal.read (s.setting.files.bytes new) = { records := [firstLink] } := by
        rw [FileSystem.bytes, hwrote.grew.elsewhere new hnew]
        rw [snapshot_oneLink] at hbytes
        exact (congrArg Journal.read hbytes).trans (Journal.read_lines [firstLink])
      have hopen : (Memory.open "links" .append).run s.setting.files = _ :=
        Memory.run_open_stands (hstands.of_names hwrote.grew.names) (by rw [hread])
      rw [hfiles, hrun.2, ← hfiles, hread] at hopen
      exact ⟨fs, s, _, _, _, hbackup, hleads, hopen, rfl⟩
  · have hrun : ((backupThenAdd (unendedWith (refusing 1 .write))).1 =
          .error ⟨.fileOperation, "File too large (os error 27)"⟩ ∧
        (backupThenAdd (unendedWith (refusing 1 .write))).2.1 = .ok ()) ∧
        (backupThenAdd (unendedWith (refusing 1 .write))).2.2.files.faults
          (backupThenAdd (unendedWith (refusing 1 .write))).2.2.files.performed .openAppend =
            none := by
      rw [backupThenAdd, Memory.run_backup rfl, snapshot_oneLink]
      decide +kernel
    obtain ⟨fs, s, hbackup, hfiles, hleads⟩ := leads_backupThenAdd hrun.1
    have hleads := hleads (Resilient "links") (.inl trivial)
    obtain ⟨-, ⟨-, hkeeping⟩ | ⟨e, new, hf, -⟩⟩ :=
      Memory.backup_failed rfl (keeping_only (unendedWith (refusing 1 .write)) rfl rfl)
        hbackup
    · have hcontinues : Continues "links" 0 (Text.encode firstLink.lineText) oneLink
          ⟨.digest, "links", .memory oneLink, fs⟩ := ⟨⟨rfl, rfl⟩, hkeeping⟩
      obtain ⟨last, records, hlast, -, -, hadded, -⟩ := hcontinues.run hleads
      obtain rfl : records = [⟨"b", "http://b/", "u", false⟩] := by
        obtain ⟨⟩ | ⟨hlogs, ⟨⟩⟩ := hadded
        rw [hlogs]
        rfl
      obtain ⟨reopened, skipped, files', hopen, hrestored⟩ :=
        run_reopen_keeping hlast.keeping (by rw [Journal.read_lineText]) .append
          (by rw [hfiles]; exact hrun.2)
      have hempty : reopened.owners = .empty := by
        rw [hrestored]
        exact restored_lineText firstLink ⟨"b", "http://b/", "u", false⟩
      refine ⟨fs, s, reopened, skipped, files', hbackup, hleads, hopen, ?_, ?_⟩
      · rw [hempty]
        rfl
      · rw [hempty]
        rfl
    · exact absurd ⟨e, hf⟩ (not_unopened_toFault .tooLarge)

end Session

end ShortLinks
