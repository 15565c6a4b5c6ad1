import ShortLinks.Proofs.Journal.Failing
import ShortLinks.Proofs.Store.Durable

/-!
# What calls write

A store with a journal open for appending writes what it changes. Whatever a call answers, the links
and the file grow by the same records: one for a link that was added, one for each link of a batch
that could be written, and one for a link that was deleted, unless there was nothing to delete. So a
file that stands at the path of the journal and was kept goes on being kept, and if it gave the links
of the store, it gives them afterwards.
-/

namespace ShortLinks.Memory

open FileSystem

variable {m m' : Memory} {fs fs' : FileSystem} {path code url owner : String} {file : FileId}
  {records : List Record} {content : Bytes} {f : Fault}

/-- The links and the file of a store have grown by the same records. -/
structure Wrote (file : FileId) (records : List Record) (m : Memory) (fs : FileSystem) (m' : Memory)
    (fs' : FileSystem) : Prop where
  journal : m'.journal = m.journal
  owners : m'.owners = m.owners.replay records
  grew : Grew file (records.flatMap Journal.lineBytes) fs fs'

/-- A store to which nothing happens wrote nothing. -/
theorem Wrote.refl (file : FileId) (m : Memory) (fs : FileSystem) : Wrote file [] m fs m fs :=
  ⟨rfl, rfl, Grew.refl file fs⟩

/-- A store that wrote twice wrote both, in this order. -/
theorem Wrote.trans {first second : List Record} {m'' : Memory} {fs'' : FileSystem}
    (h₁ : Wrote file first m fs m' fs') (h₂ : Wrote file second m' fs' m'' fs'') :
    Wrote file (first ++ second) m fs m'' fs'' where
  journal := h₂.journal.trans h₁.journal
  owners := by rw [h₂.owners, h₁.owners, Owners.replay_append]
  grew := by
    rw [List.flatMap_append]
    exact h₁.grew.trans h₂.grew

/-- The file of a journal that is kept goes on being kept. -/
theorem Wrote.keeping (h : Wrote file records m fs m' fs') (hkeeping : Keeping path file content fs) :
    Keeping path file (content ++ records.flatMap Journal.lineBytes) fs' :=
  hkeeping.of_names h.grew.names (by rw [h.grew.here, hkeeping.bytes]) h.grew.made

/-- A store that was durable is durable when its file has grown by the records that its links have
grown by. -/
theorem Durable.of_keeping (h : Durable path m fs file)
    (hjournal : m'.journal = m.journal) (howners : m'.owners = m.owners.replay records)
    (hkeeping : Keeping path file (fs.bytes file ++ records.flatMap Journal.lineBytes) fs') :
    Durable path m' fs' file := by
  have hread := Journal.read_append h.terminated h.complete records
  refine ⟨hjournal.trans h.journal, hkeeping.stands, ?_, ?_, ?_, ?_⟩
  · rw [hkeeping.bytes]
    exact h.terminated.append (Journal.terminated_lines records)
  · rw [hkeeping.bytes, hread]
    exact h.complete
  · rw [linksIn, hkeeping.bytes, hread, Owners.replay_append, howners]
    exact h.links.replay records
  · rw [howners]
    exact h.populated.replay records

/-- The records of a batch all of whose codes are free. -/
def additions (urls : Keyed String String) (owner : String) : List Record :=
  urls.entries.map fun (code, url) => { code, url, owner }

/-- The record of a deletion, if there is a link to delete. -/
def tombstones (links : Owners) (code owner : String) : List Record :=
  match links.link? owner code with
  | none => []
  | some link => if link.deleted then [] else [{ code, url := link.url, owner, deleted := true }]

/-- A record that was logged and put in is written. -/
theorem wrote_put (hjournal : m.journal = some { path, writer := some file }) {r : Record}
    (hlog : (m.log r).run fs = (.ok (), fs')) :
    Wrote file [r] m fs { m with owners := m.owners.put r } fs' := by
  obtain ⟨fs₁, hrun, hgrew⟩ | ⟨fault, hrun⟩ := run_log_journaled hjournal r fs
  · rw [hrun] at hlog
    cases hlog
    exact ⟨rfl, rfl, by simpa using hgrew⟩
  · rw [hrun] at hlog
    cases hlog

/-- A record that could not be logged is not written. -/
theorem wrote_refused (hjournal : m.journal = some { path, writer := some file }) {r : Record}
    (hlog : (m.log r).run fs = (.error f, fs')) : Wrote file [] m fs m fs' := by
  obtain ⟨fs₁, hrun, -⟩ | ⟨fault, hrun⟩ := run_log_journaled hjournal r fs <;>
    rw [hrun] at hlog <;> cases hlog
  exact ⟨rfl, rfl, Grew.of_tick file fs⟩

/-- An addition has written its record, or nothing if it was refused. -/
theorem grown_add (hjournal : m.journal = some { path, writer := some file })
    (code url owner : String) (fs : FileSystem) :
    let ended := (add code url owner).run ⟨m, fs⟩
    Wrote file (if ended.1.isOk then [{ code, url, owner }] else []) m fs ended.2.store
      ended.2.files := by
  rw [run_add]
  split
  · exact .refl file m fs
  · rcases hlog : (m.log { code, url, owner }).run fs with ⟨f | _, fs'⟩
    · exact wrote_refused hjournal hlog
    · exact wrote_put hjournal hlog

/-- A deletion has written its record, if there was anything to delete, or nothing if it was
refused. -/
theorem grown_delete (hjournal : m.journal = some { path, writer := some file })
    (code owner : String) (fs : FileSystem) :
    let ended := (delete code owner).run ⟨m, fs⟩
    Wrote file (if ended.1.isOk then tombstones m.owners code owner else []) m fs ended.2.store
      ended.2.files := by
  rw [run_delete, tombstones]
  cases m.owners.link? owner code with
  | none => exact .refl file m fs
  | some link =>
    simp only
    split
    · exact .refl file m fs
    · rcases hlog : (m.log { code, url := link.url, owner, deleted := true }).run fs
        with ⟨f | _, fs'⟩
      · exact wrote_refused hjournal hlog
      · exact wrote_put hjournal hlog

/-- A batch has written the records that could be written. -/
theorem grown_addBatch (hjournal : m.journal = some { path, writer := some file })
    (urls : Keyed String String) (owner : String) (fs : FileSystem) :
    let ended := (addBatch urls owner).run ⟨m, fs⟩
    Wrote file (written ((m.logAll (m.fresh urls owner)).run fs).1) m fs ended.2.store
      ended.2.files := by
  rw [run_addBatch]
  exact ⟨rfl, rfl, grew_logAll hjournal _ fs⟩

/-- A link that was added is written. -/
theorem wrote_add (hjournal : m.journal = some { path, writer := some file })
    (hadd : (add code url owner).run ⟨m, fs⟩ = (.ok (), ⟨m', fs'⟩)) :
    Wrote file [{ code, url, owner }] m fs m' fs' := by
  have hgrown := grown_add hjournal code url owner fs
  rwa [hadd] at hgrown

/-- A deletion that succeeded is written, if there was anything to delete. -/
theorem wrote_delete (hjournal : m.journal = some { path, writer := some file })
    (hdelete : (delete code owner).run ⟨m, fs⟩ = (.ok (), ⟨m', fs'⟩)) :
    Wrote file (tombstones m.owners code owner) m fs m' fs' := by
  have hgrown := grown_delete hjournal code owner fs
  rwa [hdelete] at hgrown

/-- A batch ends well when no code was taken and no link could not be written. -/
theorem verdict_eq_ok_iff {known : List String} {failed : List (String × Fault)} :
    verdict owner known failed = .ok () ↔ known = [] ∧ failed = [] := by
  cases failed <;> cases known <;> simp [verdict]

/-- A batch none of whose codes is taken is all new. -/
theorem fresh_of_known_eq_nil {urls : Keyed String String} (h : m.known urls owner = []) :
    m.fresh urls owner = additions urls owner := by
  have hfree : urls.entries.filter (fun (code, _) => !(m.owners.link? owner code).isSome) =
      urls.entries := by
    apply List.filter_eq_self.2
    intro entry hentry
    have htaken := List.filter_eq_nil_iff.1 (List.map_eq_nil_iff.1 h) entry hentry
    simpa using htaken
  rw [fresh, hfree]
  rfl

/-- Records none of which failed to be written are all written. -/
theorem written_of_failures_eq_nil {outcomes : List (Record × Except Fault Unit)}
    (h : failures outcomes = []) : written outcomes = outcomes.map Prod.fst := by
  induction outcomes with
  | nil => rfl
  | cons outcome rest ih =>
    obtain ⟨r, fault | _⟩ := outcome
    · cases h
    · exact congrArg (r :: ·) (ih h)

/-- A batch that succeeded is written whole. -/
theorem wrote_addBatch (hjournal : m.journal = some { path, writer := some file })
    {urls : Keyed String String}
    (hbatch : (addBatch urls owner).run ⟨m, fs⟩ = (.ok (), ⟨m', fs'⟩)) :
    Wrote file (additions urls owner) m fs m' fs' := by
  have hgrown := grown_addBatch hjournal urls owner fs
  rw [hbatch] at hgrown
  rw [run_addBatch] at hbatch
  obtain ⟨hknown, hfailures⟩ := verdict_eq_ok_iff.1 (Prod.mk.inj hbatch).1
  rwa [written_of_failures_eq_nil hfailures, map_fst_logAll, fresh_of_known_eq_nil hknown] at hgrown

end ShortLinks.Memory
