import ShortLinks.Proofs.Store.Backup

/-!
# Stores whose journal keeps up

A memory store is durable when the file at the path of its journal is read to its end, gives the
links of the store, and is the file to which the next record goes. Every operation keeps that: a
record that is written whole changes the file and the links together, a write that fails changes
neither, and a backup or another opening starts again from the same links.
-/

namespace ShortLinks

/-- Two maps have the same owners with the same links. -/
structure Owners.Agree (a b : Owners) : Prop where
  owners : ∀ owner, a.contains owner = b.contains owner
  links : a.Same b

/-- Populated maps with the same links have the same owners. -/
theorem Owners.Same.agree {a b : Owners} (h : a.Same b) (ha : a.Populated) (hb : b.Populated) :
    a.Agree b where
  owners owner := by
    rw [Bool.eq_iff_iff, ha.contains_iff, hb.contains_iff]
    exact exists_congr fun code => by rw [h owner code]
  links := h

namespace Memory

open FileSystem

variable {m : Memory} {fs fs' : FileSystem} {path code url owner : String} {file : FileId}

/-- The links that a file gives when its lines are replayed. -/
def linksIn (fs : FileSystem) (file : FileId) : Owners :=
  Owners.replay .empty (Journal.read (fs.bytes file)).records

/-- The journal of a store is open for appending to a file that gives the links of the store. -/
structure Durable (path : String) (m : Memory) (fs : FileSystem) (file : FileId) : Prop where
  journal : m.journal = some { path, writer := some file }
  stands : fs.Stands path file
  terminated : Text.Terminated (fs.bytes file)
  complete : (Journal.read (fs.bytes file)).complete
  links : (linksIn fs file).Same m.owners
  populated : m.owners.Populated

/-- No owner without links is read from a file. -/
theorem populated_linksIn (fs : FileSystem) (file : FileId) : (linksIn fs file).Populated :=
  Owners.populated_empty.replay _

/-- Records that are written to the file and put into the map keep a store durable. -/
theorem Durable.grow (h : Durable path m fs file) {records : List Record}
    (hgrew : Grew file (records.flatMap Journal.lineBytes) fs fs') :
    Durable path { m with owners := m.owners.replay records } fs' file := by
  have hread := Journal.read_append h.terminated h.complete records
  refine ⟨h.journal, h.stands.of_names hgrew.names, ?_, ?_, ?_, h.populated.replay records⟩
  · rw [hgrew.here]
    exact h.terminated.append (Journal.terminated_lines records)
  · rw [hgrew.here, hread]
    exact h.complete
  · rw [linksIn, hgrew.here, hread, Owners.replay_append]
    exact h.links.replay records

/-- An operation that was no more than counted keeps a store durable. -/
theorem Durable.tick (h : Durable path m fs file) : Durable path m fs.tick file := by
  have hgrew : Grew file (([] : List Record).flatMap Journal.lineBytes) fs fs.tick :=
    Grew.of_tick file fs
  exact h.grow hgrew

/-- A record is logged whole, or a fault is reported and nothing is written. -/
theorem run_log_journaled (hjournal : m.journal = some { path, writer := some file }) (r : Record)
    (fs : FileSystem) :
    (∃ fs', (m.log r).run fs = (.ok (), fs') ∧ Grew file (Journal.lineBytes r) fs fs') ∨
      ∃ fault, (m.log r).run fs = (.error fault, fs.tick) := by
  rw [log, hjournal]
  exact (Journal.run_append _ r rfl).imp_right And.right

/-- Of several records, the lines of those that were logged are written and nothing else is. -/
theorem grew_logAll (hjournal : m.journal = some { path, writer := some file })
    (records : List Record) (fs : FileSystem) :
    Grew file ((written ((m.logAll records).run fs).1).flatMap Journal.lineBytes) fs
      ((m.logAll records).run fs).2 := by
  induction records generalizing fs with
  | nil => exact Grew.refl file fs
  | cons r rest ih =>
    obtain ⟨fs', hlog, hgrew⟩ | ⟨fault, hlog⟩ := run_log_journaled hjournal r fs
    · rw [run_logAll_cons rest hlog]
      exact hgrew.trans (ih fs')
    · rw [run_logAll_cons rest hlog]
      exact (Grew.of_tick file fs).trans (ih fs.tick)

/-- Putting a logged record in keeps a store durable. -/
theorem Durable.put (h : Durable path m fs file) {r : Record}
    (hgrew : Grew file (Journal.lineBytes r) fs fs') :
    Durable path { m with owners := m.owners.put r } fs' file := by
  have hgrew : Grew file ([r].flatMap Journal.lineBytes) fs fs' := by simpa using hgrew
  exact h.grow hgrew

/-- An addition keeps the journal in step with the links, whether it succeeds or not. -/
theorem Durable.add (h : Durable path m fs file) (code url owner : String) :
    Durable path ((add code url owner).run ⟨m, fs⟩).2.store
      ((add code url owner).run ⟨m, fs⟩).2.files file := by
  rw [run_add]
  split
  · exact h
  · obtain ⟨fs', hlog, hgrew⟩ | ⟨fault, hlog⟩ :=
        run_log_journaled h.journal { code, url, owner } fs
    · rw [hlog]
      exact h.put hgrew
    · rw [hlog]
      exact h.tick

/-- A deletion keeps the journal in step with the links, whether it succeeds or not. -/
theorem Durable.delete (h : Durable path m fs file) (code owner : String) :
    Durable path ((delete code owner).run ⟨m, fs⟩).2.store
      ((delete code owner).run ⟨m, fs⟩).2.files file := by
  rw [run_delete]
  split
  · exact h
  · next link _ =>
    split
    · exact h
    · obtain ⟨fs', hlog, hgrew⟩ | ⟨fault, hlog⟩ :=
        run_log_journaled h.journal { code, url := link.url, owner, deleted := true } fs
      · simp only [hlog]
        exact h.put hgrew
      · simp only [hlog]
        exact h.tick

/-- A batch keeps the journal in step with the links, however many of its records are logged. -/
theorem Durable.addBatch (h : Durable path m fs file) (urls : Keyed String String)
    (owner : String) :
    Durable path ((addBatch urls owner).run ⟨m, fs⟩).2.store
      ((addBatch urls owner).run ⟨m, fs⟩).2.files file := by
  rw [run_addBatch]
  exact h.grow (grew_logAll h.journal _ fs)

/-- A backup that succeeds leaves the store durable, with the same links. -/
theorem Durable.backup (h : Durable path m fs file) {m' : Memory}
    (hbackup : backup.run ⟨m, fs⟩ = (.ok (), ⟨m', fs'⟩)) :
    m'.owners = m.owners ∧ ∃ file', Durable path m' fs' file' := by
  obtain ⟨file', hstands, hbytes, rfl⟩ := run_backup_ok h.journal hbackup
  have hread : Journal.read (fs'.bytes file') = { records := m.owners.snapshot } := by
    rw [hbytes, Journal.read_lines]
  refine ⟨rfl, file', rfl, hstands, ?_, ?_, ?_, h.populated⟩
  · rw [hbytes]
    exact Journal.terminated_lines _
  · rw [hread]
  · rw [linksIn, hread]
    exact Owners.same_replay_snapshot m.owners

/-- The file of a durable store gives its links, if the fault plan lets it be opened. -/
theorem Durable.run_open (h : Durable path m fs file) (mode : JournalMode) :
    («open» path mode).run fs =
    match fs.faults fs.performed .openAppend with
    | some e => ({ result := .error (Journal.pathFault "Failed to open" path e) }, fs.tick)
    | none => ({
        result := .ok {
          owners := linksIn fs file
          journal := some { path, writer := if mode = .append then some file else none } }
        skipped := (Journal.read (fs.bytes file)).skipped }, fs.tick) :=
  run_open_stands h.stands h.complete

/-- A durable store that is opened again for appending is durable. -/
theorem Durable.reopen (h : Durable path m fs file) :
    Durable path { owners := linksIn fs file, journal := some { path, writer := some file } }
      fs.tick file where
  journal := rfl
  stands := h.stands.of_names rfl
  terminated := h.terminated
  complete := h.complete
  links := Owners.Same.refl _
  populated := populated_linksIn fs file

/-- A store that is opened for appending is durable if its file was empty or ended with the end of
a line. -/
theorem durable_of_open {skipped : List Journal.Skipped}
    (hopen : («open» path .append).run fs = ({ result := .ok m, skipped }, fs'))
    (hterminated : ∀ file, m.journal = some { path, writer := some file } →
      Text.Terminated (fs.bytes file)) :
    ∃ file, Durable path m fs' file := by
  obtain ⟨file, hstands, hcomplete, howners, hjournal, hbytes⟩ := run_open_ok hopen
  have hlinks : (linksIn fs' file).Same m.owners := howners ▸ Owners.Same.refl _
  have hpopulated : m.owners.Populated := howners ▸ populated_linksIn fs' file
  exact ⟨file, hjournal, hstands, hbytes ▸ hterminated file hjournal, hcomplete, hlinks,
    hpopulated⟩

end Memory

end ShortLinks
