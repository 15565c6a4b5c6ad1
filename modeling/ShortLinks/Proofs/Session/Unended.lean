import ShortLinks.Proofs.Journal.Unended
import ShortLinks.Proofs.Session.Steps
import ShortLinks.Proofs.Store.Written

/-!
# Journals whose last line has not ended

A journal can be opened for appending when its last line has not ended, and its store goes on like
any other: what is accepted changes the links and adds its records to the file. But the first of
these records stands behind the line that had not ended. So when the journal is opened again, what
that line said and what that record said are missing, unless the line was blank, and all the rest
is there.
-/

namespace ShortLinks.Session

open Text

variable {path : String} {m : Memory} {fs : FileSystem} {file : FileId} {s s' : Session}

/-- Questions, and changes that are accepted. -/
def Accepted : Step → Answer → Prop
  | .add .., answer | .addBatch .., answer | .delete .., answer => ∃ r, answer = .reply r
  | .get _, _ | .list _, _ | .stats, _ => True
  | _, _ => False

/-- The records of what an accepted step changes in the links. -/
def Step.changes (links : Owners) : Step → List Record
  | .add code url owner => [{ code, url, owner }]
  | .addBatch urls owner => Memory.additions urls owner
  | .delete code owner => Memory.tombstones links code owner
  | _ => []

/-- The records of what accepted steps change in the links, one step after another. -/
def changes (links : Owners) : List (Step × Answer) → List Record
  | [] => []
  | (step, _) :: later => step.changes links ++ changes (links.replay (step.changes links)) later

/-- A session works on a memory store whose journal is open for appending. -/
structure Appends (path : String) (file : FileId) (m : Memory) (s : Session) : Prop where
  store : s.setting.store = .memory m
  journal : m.journal = some { path, writer := some file }

/-- A step that is accepted writes what it changes. -/
theorem Appends.step {answer : Answer} (h : Appends path file m s) {st : Step}
    (hstep : (Session.step st).run s = (answer, s')) (hmay : Accepted st answer) :
    ∃ m', Appends path file m' s' ∧
      Memory.Wrote file (st.changes m.owners) m s.setting.files m' s'.setting.files := by
  obtain ⟨scheme, place, ⟨store, fs⟩⟩ := s
  obtain ⟨hstore, hjournal⟩ := h
  cases hstore
  have happends {records : List Record} {m' : Memory} {fs' : FileSystem}
      (hwrote : Memory.Wrote file records m fs m' fs') :
      ∃ m'', Appends path file m'' ⟨scheme, place, .memory m', fs'⟩ ∧
        Memory.Wrote file records m fs m'' fs' :=
    ⟨m', ⟨rfl, hwrote.journal.trans hjournal⟩, hwrote⟩
  cases st with
  | add code url owner =>
    obtain ⟨r, rfl⟩ := hmay
    obtain ⟨_, m', fs', hadd, rfl⟩ := run_act_memory_reply hstep
    exact happends (Memory.wrote_add hjournal hadd)
  | addBatch urls owner =>
    obtain ⟨r, rfl⟩ := hmay
    obtain ⟨_, m', fs', hbatch, rfl⟩ := run_act_memory_reply hstep
    exact happends (Memory.wrote_addBatch hjournal hbatch)
  | delete code owner =>
    obtain ⟨r, rfl⟩ := hmay
    obtain ⟨_, m', fs', hdelete, rfl⟩ := run_act_memory_reply hstep
    exact happends (Memory.wrote_delete hjournal hdelete)
  | get code =>
    rw [Session.step, Store.storage, Memory.storage, run_act_answer] at hstep
    cases hstep
    exact happends (Memory.Wrote.refl file m fs)
  | list owner =>
    rw [Session.step, Store.storage, Memory.storage, run_act_answer] at hstep
    cases hstep
    exact happends (Memory.Wrote.refl file m fs)
  | stats =>
    rw [Session.step, Store.storage, Memory.storage, run_act_answer] at hstep
    cases hstep
    exact happends (Memory.Wrote.refl file m fs)
  | _ => cases hmay

/-- A run of accepted steps writes what they change, in order. -/
theorem Appends.run {history : List (Step × Answer)} (h : Appends path file m s)
    (hrun : Leads Accepted s history s') :
    ∃ m', Appends path file m' s' ∧
      Memory.Wrote file (changes m.owners history) m s.setting.files m' s'.setting.files := by
  induction hrun generalizing m with
  | nil => exact ⟨m, h, Memory.Wrote.refl file m _⟩
  | cons hstep hmay _ ih =>
    obtain ⟨next, hnext, hfirst⟩ := h.step hstep hmay
    obtain ⟨last, hlast, hlater⟩ := ih hnext
    rw [hfirst.owners] at hlater
    exact ⟨last, hlast, hfirst.trans hlater⟩

/-- The links that records restore from a content they were written behind. -/
def restored (content : Bytes) (records : List Record) : Owners :=
  Owners.replay .empty ((Journal.read (ended content)).records ++
    (Journal.Line.ofBytes (unended content)).followedBy records)

/-- What is not lost is restored, so only lost records make a difference. -/
theorem same_restored_iff {content : Bytes} (hcomplete : (Journal.read content).complete)
    (records : List Record) :
    let links := (Owners.replay .empty (Journal.read content).records).replay records
    (restored content records).Same links ↔
      ∀ r ∈ (Journal.Line.ofBytes (unended content)).lost records,
        (restored content records).link? r.owner r.code = links.link? r.owner r.code := by
  have hlinks : (Owners.replay .empty (Journal.read content).records).replay records =
      ((Owners.replay .empty (Journal.read (ended content)).records).replay
        ((Journal.Line.ofBytes (unended content)).lost records)).replay
          ((Journal.Line.ofBytes (unended content)).followedBy records) := by
    rw [Journal.read_ended hcomplete, Owners.replay_append, ← Owners.replay_append,
      ← Journal.Line.lost_append_followedBy, Owners.replay_append]
  rw [hlinks, restored, Owners.replay_append]
  exact Owners.same_replay_without_iff

/-- After accepted steps, the links are those of the journal with the changes, and opening the
journal again gives the links that these restore. -/
theorem run_reopen_restored {scheme : Scheme} {place : String} {files : FileSystem}
    {skipped : List Journal.Skipped} {history : List (Step × Answer)}
    (hopen : (Memory.open path .append).run files = ({ result := .ok m, skipped }, fs))
    (hrun : Leads Accepted ⟨scheme, place, .memory m, fs⟩ history s) :
    ∃ file m', m.journal = some { path, writer := some file } ∧ s.setting.store = .memory m' ∧
      (Journal.read (files.bytes file)).complete ∧
      m.owners = Owners.replay .empty (Journal.read (files.bytes file)).records ∧
      m'.owners = m.owners.replay (changes m.owners history) ∧
      s.setting.files.faults = fs.faults ∧
      ∀ mode, s.setting.files.faults s.setting.files.performed .openAppend = none →
        ∃ reopened skipped files', (Memory.open path mode).run s.setting.files =
            ({ result := .ok reopened, skipped }, files') ∧
          reopened.owners = restored (files.bytes file) (changes m.owners history) := by
  obtain ⟨file, hstands, hcomplete, howners, hjournal, hbytes⟩ := Memory.run_open_ok hopen
  have happends : Appends path file m ⟨scheme, place, .memory m, fs⟩ := ⟨rfl, hjournal⟩
  obtain ⟨m', ⟨hstore, -⟩, hwrote⟩ := happends.run hrun
  have hcontent : s.setting.files.bytes file =
      files.bytes file ++ (changes m.owners history).flatMap Journal.lineBytes := by
    rw [hwrote.grew.here, ← hbytes]
  rw [hbytes] at hcomplete howners
  refine ⟨file, m', hjournal, hstore, hcomplete, howners, hwrote.owners, hwrote.grew.faults,
    fun mode hplan => ?_⟩
  obtain ⟨hread, hrecords⟩ := Journal.read_behind hcomplete (changes m.owners history)
  rw [← hcontent] at hread hrecords
  have hreopen : (Memory.open path mode).run s.setting.files = _ :=
    Memory.run_open_stands (hstands.of_names hwrote.grew.names) hread
  rw [hplan] at hreopen
  exact ⟨_, _, _, hreopen, by rw [restored, ← hrecords]⟩

/-- Two records that share a line restore nothing. -/
theorem restored_lineText (r r' : Record) : restored (encode r.lineText) [r'] = .empty := by
  have hnewline := Journal.newline_not_mem_lineText r
  rw [restored, ended_eq_nil hnewline, unended_eq_self hnewline, Journal.ofBytes_lineText]
  rfl

/-- A record of a link. -/
def firstLink : Record := ⟨"a", "http://a/", "u", false⟩

/-- Files with a journal of one record, whose line has not ended. -/
def oneUnended : FileSystem where
  names := Keyed.empty.insert ["links"] (.file 0)
  contents := [.octets (encode firstLink.lineText)]

/-- The store that is opened from this journal. -/
def oneLink : Memory where
  owners := Owners.put .empty firstLink
  journal := some { path := "links", writer := some 0 }

/-- The line of one link is read although it has not ended. -/
theorem run_open_oneUnended : (Memory.open "links" .append).run oneUnended =
    ({ result := .ok oneLink }, oneUnended.tick) := by
  have hstands : oneUnended.Stands "links" 0 := ⟨["links"], by decide +kernel, rfl⟩
  have hread : Journal.read (oneUnended.bytes 0) = { records := [firstLink] } :=
    Journal.read_lineText firstLink
  rw [Memory.run_open_stands hstands (by rw [hread]), hread]
  rfl

/-- Another link is accepted. -/
theorem accepted_oneUnended : ∃ s,
    Leads Accepted ⟨.digest, "links", .memory oneLink, oneUnended.tick⟩
      [(.add "b" "http://b/" "u", .reply .done)] s ∧ s.setting.files.faults = noFaults :=
  ⟨_, .cons rfl ⟨_, rfl⟩ (.nil _), rfl⟩

/-- A session opened a journal for appending, whether or not its last line had ended, and took any
steps that were accepted. Its links are those of the journal with the changes, but opening the
journal again gives only what its ended lines say, with what is read of the line that had not ended
and of the changes behind it. The links differ at most where a record was lost, and a record was
lost exactly when the line was not blank and something was changed. -/
theorem reopened_without_lost {scheme : Scheme} {place : String} {files : FileSystem}
    {skipped : List Journal.Skipped} {history : List (Step × Answer)}
    (hopen : (Memory.open path .append).run files = ({ result := .ok m, skipped }, fs))
    (hrun : Leads Accepted ⟨scheme, place, .memory m, fs⟩ history s) :
    ∃ file m', m.journal = some { path, writer := some file } ∧ s.setting.store = .memory m' ∧
      let content := files.bytes file
      let line := Journal.Line.ofBytes (unended content)
      let records := changes m.owners history
      m.owners = Owners.replay .empty (Journal.read content).records ∧
      m'.owners = m.owners.replay records ∧
      (line.lost records = [] ↔ line = .blank ∨ records = []) ∧
      ∀ mode, s.setting.files.faults s.setting.files.performed .openAppend = none →
        ∃ reopened skipped files', (Memory.open path mode).run s.setting.files =
            ({ result := .ok reopened, skipped }, files') ∧
          reopened.owners = restored content records ∧
          (reopened.owners.Same m'.owners ↔ ∀ r ∈ line.lost records,
            reopened.owners.link? r.owner r.code = m'.owners.link? r.owner r.code) := by
  obtain ⟨file, m', hjournal, hstore, hcomplete, hbefore, hafter, -, hreopen⟩ :=
    run_reopen_restored hopen hrun
  refine ⟨file, m', hjournal, hstore, hbefore, hafter, Journal.Line.lost_eq_nil_iff,
    fun mode hplan => ?_⟩
  obtain ⟨reopened, skipped, files', hopened, hrestored⟩ := hreopen mode hplan
  refine ⟨reopened, skipped, files', hopened, hrestored, ?_⟩
  rw [hrestored, hafter, hbefore]
  exact same_restored_iff hcomplete _

/-- A link is added behind a record whose line has not ended: opening the journal again gives
neither. -/
theorem reopened_without_lost_both : ∃ s m' reopened skipped files',
    (Memory.open "links" .append).run oneUnended = ({ result := .ok oneLink }, oneUnended.tick) ∧
    Leads Accepted ⟨.digest, "links", .memory oneLink, oneUnended.tick⟩
      [(.add "b" "http://b/" "u", .reply .done)] s ∧
    s.setting.store = .memory m' ∧ m'.owners = oneLink.owners.put ⟨"b", "http://b/", "u", false⟩ ∧
    (Memory.open "links" .append).run s.setting.files =
      ({ result := .ok reopened, skipped }, files') ∧
    reopened.owners = .empty := by
  obtain ⟨s, hrun, hfaults⟩ := accepted_oneUnended
  obtain ⟨file, m', hjournal, hstore, -, hafter, -, hreopen⟩ :=
    reopened_without_lost run_open_oneUnended hrun
  obtain ⟨reopened, skipped, files', hopened, hrestored, -⟩ :=
    hreopen .append (by rw [hfaults]; rfl)
  cases hjournal
  have hempty : reopened.owners = .empty := by
    rw [hrestored]
    exact restored_lineText firstLink ⟨"b", "http://b/", "u", false⟩
  exact ⟨s, m', reopened, skipped, files', run_open_oneUnended, hrun, hstore, hafter, hopened,
    hempty⟩

/-- Neither the link that was read nor the one that was accepted is there when the journal is opened
again. -/
theorem reopened_not_accepted : ∃ s reopened skipped files',
    (Memory.open "links" .append).run oneUnended = ({ result := .ok oneLink }, oneUnended.tick) ∧
    Leads Accepted ⟨.digest, "links", .memory oneLink, oneUnended.tick⟩
      [(.add "b" "http://b/" "u", .reply .done)] s ∧
    (Memory.open "links" .append).run s.setting.files =
      ({ result := .ok reopened, skipped }, files') ∧
    oneLink.owners.link? "u" "a" = some ⟨"http://a/", false⟩ ∧
    reopened.owners.link? "u" "a" = none ∧ reopened.owners.link? "u" "b" = none := by
  obtain ⟨s, hrun, hfaults⟩ := accepted_oneUnended
  obtain ⟨file, m', hjournal, -, -, -, -, -, hreopen⟩ :=
    run_reopen_restored run_open_oneUnended hrun
  obtain ⟨reopened, skipped, files', hopened, hrestored⟩ := hreopen .append (by rw [hfaults]; rfl)
  cases hjournal
  have hempty : reopened.owners = .empty := by
    rw [hrestored]
    exact restored_lineText firstLink ⟨"b", "http://b/", "u", false⟩
  refine ⟨s, reopened, skipped, files', run_open_oneUnended, hrun, hopened, rfl, ?_, ?_⟩
  · rw [hempty]
    rfl
  · rw [hempty]
    rfl

end ShortLinks.Session
