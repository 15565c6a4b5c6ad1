import ShortLinks.Proofs.Journal.Writing
import ShortLinks.Proofs.Store.Owners
import ShortLinks.Store.Memory

/-!
# Running the memory store

Each operation of the memory store has an equation for its run: what it asks of the links, what it
does to the journal, and the links afterwards. The links after a batch are told apart by code: those
that were there stay, those that could be written are new, and nothing else changes.
-/

namespace ShortLinks.Memory

open FileSystem

variable {m : Memory} {fs fs' : FileSystem} {path code url owner : String} {mode : JournalMode}
  {file : FileId}

/-- A journal is opened by attaching to its file and replaying what is read to the end. -/
theorem run_open (path : String) (mode : JournalMode) (fs : FileSystem) :
    («open» path mode).run fs = match (Journal.attach path mode).run fs with
      | (.error fault, fs') => ({ result := .error fault }, fs')
      | (.ok (journal, file), fs') =>
        let reading := Journal.read (fs'.bytes file)
        ({ result :=
            if reading.complete then
              .ok { owners := Owners.replay .empty reading.records, journal := some journal }
            else .error (IoError.toFault .notText)
           skipped := reading.skipped }, fs') := by
  have hrun : StateT.run (Journal.attach path mode).run fs =
      (Journal.attach path mode).run fs := rfl
  rw [«open», runState_bind, hrun]
  rcases (Journal.attach path mode).run fs with ⟨_ | ⟨journal, file⟩, fs'⟩ <;> rfl

/-- What a file says that is read to its end is taken over, if the fault plan lets it be opened. -/
theorem run_open_stands (h : fs.Stands path file)
    (hcomplete : (Journal.read (fs.bytes file)).complete) : («open» path mode).run fs =
    match fs.faults fs.performed .openAppend with
    | some e => ({ result := .error (Journal.pathFault "Failed to open" path e) }, fs.tick)
    | none => ({
        result := .ok {
          owners := Owners.replay .empty (Journal.read (fs.bytes file)).records
          journal := some { path, writer := if mode = .append then some file else none } }
        skipped := (Journal.read (fs.bytes file)).skipped }, fs.tick) := by
  have hcomplete' : (Journal.read (fs.tick.bytes file)).complete := hcomplete
  rw [run_open, Journal.run_attach_stands h]
  cases fs.faults fs.performed .openAppend with
  | some e => rfl
  | none =>
    simp only [if_pos hcomplete']
    rfl

/-- A store that was opened has taken over what the file at its path says. -/
theorem run_open_ok {skipped : List Journal.Skipped}
    (h : («open» path mode).run fs = ({ result := .ok m, skipped }, fs')) :
    ∃ file, fs'.Stands path file ∧ (Journal.read (fs'.bytes file)).complete ∧
      m.owners = Owners.replay .empty (Journal.read (fs'.bytes file)).records ∧
      m.journal = some { path, writer := if mode = .append then some file else none } ∧
      fs'.bytes file = fs.bytes file := by
  rw [run_open] at h
  rcases hattach : (Journal.attach path mode).run fs with ⟨_ | ⟨journal, file⟩, fs₁⟩
  · rw [hattach] at h
    cases h
  · rw [hattach] at h
    obtain ⟨hstands, rfl, -, hbytes⟩ := Journal.run_attach_ok hattach
    by_cases hcomplete : (Journal.read (fs₁.bytes file)).complete
    · simp only [if_pos hcomplete] at h
      cases h
      exact ⟨file, hstands, hcomplete, rfl, rfl, hbytes⟩
    · simp only [if_neg hcomplete] at h
      cases h

/-- Opening a journal leaves the fault plan as it is. -/
theorem faults_open {skipped : List Journal.Skipped}
    (h : («open» path mode).run fs = ({ result := .ok m, skipped }, fs')) :
    fs'.faults = fs.faults := by
  rw [run_open] at h
  rcases hattach : (Journal.attach path mode).run fs with ⟨_ | ⟨journal, file⟩, fs₁⟩
  · rw [hattach] at h
    cases h
  · rw [hattach] at h
    obtain ⟨-, -, hfaults, -⟩ := Journal.run_attach_ok hattach
    obtain ⟨-, rfl⟩ := Prod.mk.inj h
    exact hfaults

/-- Nothing keeps records from being logged: there is no journal, or nothing on files fails. -/
def Sound (m : Memory) (fs : FileSystem) : Prop := m.journal ≠ none → fs.faults = noFaults

/-- Logging leaves the fault plan as it is, and succeeds where nothing keeps it from that. -/
theorem run_log_cases (m : Memory) (r : Record) (fs : FileSystem) :
    ((m.log r).run fs).2.faults = fs.faults ∧ (Sound m fs → ((m.log r).run fs).1 = .ok ()) := by
  rw [log]
  split
  · exact ⟨rfl, fun _ => rfl⟩
  · next journal hjournal =>
    cases hwriter : journal.writer with
    | none =>
      rw [Journal.append, hwriter]
      exact ⟨rfl, fun _ => rfl⟩
    | some file =>
      obtain ⟨fs', hrun, hgrew⟩ | ⟨hfaults, fault, hrun⟩ := journal.run_append r hwriter
      · rw [hrun]
        exact ⟨hgrew.faults, fun _ => rfl⟩
      · rw [hrun]
        exact ⟨rfl, fun hsound => absurd (hsound (by simp [hjournal])) hfaults⟩

/-- A record that cannot be logged is a fault of the file. -/
theorem kind_of_run_log {r : Record} {f : Fault} (h : (m.log r).run fs = (.error f, fs')) :
    f.kind = .fileOperation := by
  rw [log] at h
  split at h
  · cases h
  · rw [Journal.append] at h
    split at h
    · cases h
    · rw [run_orFault] at h
      cases hresult : (Disk.append _ (Journal.lineBytes r)).run fs with
      | mk result fs₁ =>
        rw [hresult] at h
        cases result <;> cases h
        rfl

/-- An addition logs its record and adds the link, unless the owner has one under the code. -/
theorem run_add (m : Memory) (fs : FileSystem) : (add code url owner).run ⟨m, fs⟩ =
    if (m.owners.link? owner code).isSome then
      (.error ⟨.conflict, "short code " ++ code ++ " already exists for owner " ++ owner⟩, ⟨m, fs⟩)
    else match (m.log { code, url, owner }).run fs with
      | (.ok (), fs') => (.ok (), ⟨{ m with owners := m.owners.put { code, url, owner } }, fs'⟩)
      | (.error fault, fs') => (.error fault, ⟨m, fs'⟩) := by
  rw [add, run_bind, Action.run_store]
  simp only
  split
  · rfl
  · rw [run_bind, Action.run_onFiles]
    rcases (m.log { code, url, owner }).run fs with ⟨_ | _, fs'⟩ <;> rfl

/-- A link is added under a code that was free, or the links stay as they are. -/
theorem add_cases (m : Memory) (fs : FileSystem) (code url owner : String) :
    let ended := (add code url owner).run ⟨m, fs⟩
    ended.2.store.journal = m.journal ∧ ended.2.files.faults = fs.faults ∧
    ((ended.1 = .ok () ∧ m.owners.link? owner code = none ∧
      ended.2.store.owners = m.owners.put { code, url, owner }) ∨
    ∃ f, ended.1 = .error f ∧ ended.2.store.owners = m.owners ∧
      (f.kind = .conflict → m.owners.link? owner code ≠ none) ∧
      (f.kind ≠ .conflict → ¬Sound m fs)) := by
  rw [run_add]
  split
  · next htaken =>
    exact ⟨rfl, rfl, .inr ⟨_, rfl, rfl, fun _ => Option.isSome_iff_ne_none.1 htaken,
      fun hkind => absurd rfl hkind⟩⟩
  · next hfree =>
    obtain ⟨hfaults, hok⟩ := run_log_cases m { code, url, owner } fs
    rcases hlog : (m.log { code, url, owner }).run fs with ⟨f | _, fs'⟩ <;>
      rw [hlog] at hfaults hok
    · refine ⟨rfl, hfaults, .inr ⟨f, rfl, rfl, fun hconflict => ?_, fun _ hsound => ?_⟩⟩
      · simp [kind_of_run_log hlog] at hconflict
      · cases hok hsound
    · exact ⟨rfl, hfaults, .inl ⟨rfl, by simpa using hfree, rfl⟩⟩

/-- A deletion logs a tombstone and sets it, if the owner has a link under the code that has none.
-/
theorem run_delete (m : Memory) (fs : FileSystem) : (delete code owner).run ⟨m, fs⟩ =
    match m.owners.link? owner code with
    | none => (.ok (), ⟨m, fs⟩)
    | some link =>
      if link.deleted then (.ok (), ⟨m, fs⟩)
      else
        let record : Record := { code, url := link.url, owner, deleted := true }
        match (m.log record).run fs with
        | (.ok (), fs') => (.ok (), ⟨{ m with owners := m.owners.put record }, fs'⟩)
        | (.error fault, fs') => (.error fault, ⟨m, fs'⟩) := by
  rw [delete, run_bind, Action.run_store]
  cases hlink : m.owners.link? owner code with
  | none => simp [hlink]
  | some link =>
    simp only [hlink]
    split
    · rfl
    · rw [run_bind, Action.run_onFiles]
      rcases (m.log { code, url := link.url, owner, deleted := true }).run fs with ⟨_ | _, fs'⟩ <;>
        rfl

/-- A batch logs its new links and adds those that could be logged. -/
theorem run_addBatch (m : Memory) (urls : Keyed String String) (fs : FileSystem) :
    (addBatch urls owner).run ⟨m, fs⟩ =
      let ended := (m.logAll (m.fresh urls owner)).run fs
      (verdict owner (m.known urls owner) (failures ended.1),
        ⟨{ m with owners := m.owners.replay (written ended.1) }, ended.2⟩) := by
  simp only [addBatch, run_bind, Action.run_store, Action.run_outcomeOnFiles, Action.run_setStore,
    Action.run_answer]

/-- The first of many records is logged, then the rest. -/
theorem run_logAll_cons {r : Record} {result : Except Fault Unit} (rest : List Record)
    (hlog : (m.log r).run fs = (result, fs')) : (m.logAll (r :: rest)).run fs =
      ((r, result) :: ((m.logAll rest).run fs').1, ((m.logAll rest).run fs').2) := by
  have hlog : StateT.run (m.log r).run fs = (result, fs') := hlog
  rw [logAll, runState_bind, hlog, runState_bind]
  rfl

/-- Logging many records is like logging each of them. -/
theorem run_logAll_cases (m : Memory) (records : List Record) (fs : FileSystem) :
    ((m.logAll records).run fs).2.faults = fs.faults ∧
      (Sound m fs → ((m.logAll records).run fs).1 = records.map fun r => (r, .ok ())) := by
  induction records generalizing fs with
  | nil => exact ⟨rfl, fun _ => rfl⟩
  | cons r rest ih =>
    obtain ⟨hfaults, hok⟩ := run_log_cases m r fs
    obtain ⟨hfaults', hrest⟩ := ih ((m.log r).run fs).2
    rw [run_logAll_cons rest (Prod.eta _).symm]
    refine ⟨hfaults'.trans hfaults, fun hsound => ?_⟩
    have hsound' : Sound m ((m.log r).run fs).2 := fun h => hfaults.trans (hsound h)
    rw [hok hsound, hrest hsound']
    rfl

/-- The link of an owner under a code gets its tombstone, or the links stay as they are. -/
theorem delete_cases (m : Memory) (fs : FileSystem) (code owner : String) :
    let ended := (delete code owner).run ⟨m, fs⟩
    ended.2.store.journal = m.journal ∧ ended.2.files.faults = fs.faults ∧
    ((ended.1 = .ok () ∧ ∀ o c, ended.2.store.owners.link? o c =
      if o = owner ∧ c = code then
        (m.owners.link? owner code).map fun link => { link with deleted := true }
      else m.owners.link? o c) ∨
    ∃ f, ended.1 = .error f ∧ ended.2.store.owners = m.owners ∧ ¬Sound m fs) := by
  rw [run_delete]
  cases hlink : m.owners.link? owner code with
  | none => exact ⟨rfl, rfl, .inl ⟨rfl, by simp [hlink]⟩⟩
  | some link =>
    simp only
    split
    · next hdeleted =>
      exact ⟨rfl, rfl, .inl ⟨rfl, by simp [hlink, ← hdeleted]⟩⟩
    · obtain ⟨hfaults, hok⟩ := run_log_cases m { code, url := link.url, owner, deleted := true } fs
      rcases hlog : (m.log { code, url := link.url, owner, deleted := true }).run fs
        with ⟨f | _, fs'⟩ <;> rw [hlog] at hfaults hok
      · exact ⟨rfl, hfaults, .inr ⟨f, rfl, rfl, fun hsound => nomatch hok hsound⟩⟩
      · refine ⟨rfl, hfaults, .inl ⟨rfl, fun o c => ?_⟩⟩
        simp only [Owners.link?_put, Option.map_some, eq_comm]

/-- Every record that is to be written has an outcome. -/
theorem map_fst_logAll (m : Memory) (records : List Record) (fs : FileSystem) :
    ((m.logAll records).run fs).1.map Prod.fst = records := by
  induction records generalizing fs with
  | nil => rfl
  | cons r rest ih =>
    rw [logAll, runState_bind, runState_bind]
    exact congrArg (r :: ·) (ih _)

section Outcomes

variable {outcomes : List (Record × Except Fault Unit)} {urls : Keyed String String} {r : Record}

/-- The records that were written are those whose logging succeeded. -/
theorem mem_written : r ∈ written outcomes ↔ (r, .ok ()) ∈ outcomes := by
  rw [written, List.mem_filterMap]
  constructor
  · rintro ⟨⟨r', _ | _⟩, hmem, hr⟩
    · cases hr
    · cases hr
      exact hmem
  · exact fun hmem => ⟨_, hmem, rfl⟩

/-- The failures are those of the records whose logging failed. -/
theorem mem_failures {code : String} : code ∈ (failures outcomes).map Prod.fst ↔
    ∃ r fault, (r, .error fault) ∈ outcomes ∧ r.code = code := by
  simp only [failures, List.mem_map, List.mem_filterMap]
  constructor
  · rintro ⟨_, ⟨⟨r, fault | _⟩, hmem, hr⟩, rfl⟩
    · cases hr
      exact ⟨r, fault, hmem, rfl⟩
    · cases hr
  · rintro ⟨r, fault, hmem, rfl⟩
    exact ⟨_, ⟨_, hmem, rfl⟩, rfl⟩

/-- The records that were written are among all records, in the same order. -/
theorem written_sublist (outcomes : List (Record × Except Fault Unit)) :
    (written outcomes).Sublist (outcomes.map Prod.fst) := by
  induction outcomes with
  | nil => exact List.Sublist.slnil
  | cons outcome rest ih =>
    obtain ⟨r, _ | _⟩ := outcome
    · exact ih.cons r
    · exact ih.cons_cons r

/-- A batch that does not fail on the file had no link that could not be written. -/
theorem eq_nil_of_verdict {known : List String} {failed : List (String × Fault)}
    (h : ∀ f, verdict owner known failed = .error f → f.kind ≠ .fileOperation) : failed = [] := by
  cases failed with
  | nil => rfl
  | cons failure rest => exact absurd rfl (h (unwritten owner (failure :: rest)) rfl)

/-- A record of a batch is fresh when its owner has no link under its code. -/
theorem mem_fresh : r ∈ m.fresh urls owner ↔ r.owner = owner ∧ r.deleted = false ∧
    urls.find? r.code = some r.url ∧ m.owners.link? owner r.code = none := by
  obtain ⟨code, url, owner', deleted⟩ := r
  simp only [fresh, List.mem_map, List.mem_filter, Prod.exists, Keyed.mem_entries_iff]
  constructor
  · rintro ⟨_, _, ⟨hfind, hlink⟩, hr⟩
    cases hr
    exact ⟨rfl, rfl, hfind, by simpa using hlink⟩
  · rintro ⟨rfl, rfl, hfind, hlink⟩
    exact ⟨code, url, ⟨hfind, by simp [hlink]⟩, rfl⟩

/-- The codes of a batch that are known are those under which the owner has a link. -/
theorem mem_known {code : String} : code ∈ m.known urls owner ↔
    urls.contains code ∧ (m.owners.link? owner code).isSome := by
  simp only [known, List.mem_map, List.mem_filter, Prod.exists, Keyed.mem_entries_iff,
    Keyed.contains, Option.isSome_iff_exists]
  constructor
  · rintro ⟨_, url, ⟨hfind, hlink⟩, rfl⟩
    exact ⟨⟨url, hfind⟩, hlink⟩
  · rintro ⟨⟨url, hfind⟩, hlink⟩
    exact ⟨code, url, ⟨hfind, hlink⟩, rfl⟩

/-- No two records of a batch are about the same link. -/
theorem nodup_keys_fresh (m : Memory) (urls : Keyed String String) (owner : String) :
    ((m.fresh urls owner).map Owners.key).Nodup := by
  rw [fresh, List.map_map]
  have hcodes := (List.filter_sublist (p := fun (e : String × String) =>
    !(m.owners.link? owner e.1).isSome)).map Prod.fst |>.nodup urls.nodup
  rw [show (Owners.key ∘ fun (e : String × String) => (⟨e.1, e.2, owner, false⟩ : Record)) =
    (fun code => (owner, code)) ∘ Prod.fst from rfl, ← List.map_map]
  exact hcodes.map fun _ _ h => (Prod.mk.inj h).2

/-- The links after a batch: a code of the batch that was free and whose record could be written has
the URL of the batch, and everything else is as before. -/
theorem link?_replay_written (hrecords : outcomes.map Prod.fst = m.fresh urls owner)
    (owner' code : String) : (m.owners.replay (written outcomes)).link? owner' code =
      if owner' = owner ∧ m.owners.link? owner code = none ∧ code ∉ (failures outcomes).map Prod.fst
      then (urls.find? code).map fun url => ⟨url, false⟩
      else m.owners.link? owner' code := by
  have hkeys : ((outcomes.map Prod.fst).map Owners.key).Nodup :=
    hrecords ▸ nodup_keys_fresh m urls owner
  have hfresh {r outcome} (h : (r, outcome) ∈ outcomes) : r ∈ m.fresh urls owner :=
    hrecords ▸ List.mem_map.2 ⟨_, h, rfl⟩
  by_cases hmem : (owner', code) ∈ (written outcomes).map Owners.key
  · obtain ⟨r, hr, hkey⟩ := List.mem_map.1 hmem
    cases hkey
    have hok := mem_written.1 hr
    obtain ⟨howner, hdeleted, hfind, hlink⟩ := mem_fresh.1 (hfresh hok)
    have hnotFailed : r.code ∉ (failures outcomes).map Prod.fst := by
      intro hfailed
      obtain ⟨r', fault, herror, hcode⟩ := mem_failures.1 hfailed
      have hkey : Owners.key r' = Owners.key r := by
        rw [Owners.key, Owners.key, hcode, howner, (mem_fresh.1 (hfresh herror)).1]
      rw [List.map_map] at hkeys
      cases List.inj_on_of_nodup_map hkeys herror hok hkey
    rw [if_pos ⟨howner, hlink, hnotFailed⟩, hfind,
      Owners.link?_replay_of_mem (((written_sublist outcomes).map _).nodup hkeys) hr, hdeleted]
    rfl
  · rw [Owners.link?_replay_of_not_mem hmem]
    split
    · next h =>
      obtain ⟨rfl, hlink, hnotFailed⟩ := h
      cases hfind : urls.find? code with
      | none => exact hlink
      | some url =>
        have hr : (⟨code, url, owner', false⟩ : Record) ∈ outcomes.map Prod.fst :=
          hrecords ▸ mem_fresh.2 ⟨rfl, rfl, hfind, hlink⟩
        obtain ⟨⟨r, fault | _⟩, hmem', hr⟩ := List.mem_map.1 hr
        · cases hr
          exact absurd (mem_failures.2 ⟨_, fault, hmem', rfl⟩) hnotFailed
        · cases hr
          exact absurd (List.mem_map.2 ⟨_, mem_written.2 hmem', rfl⟩) hmem
    · rfl

/-- A batch adds all its links under codes that were free, whether others were taken or not; or it
reports links that could not be written, and adds some of them. -/
theorem addBatch_cases (m : Memory) (urls : Keyed String String) (owner : String)
    (fs : FileSystem) :
    let ended := (addBatch urls owner).run ⟨m, fs⟩
    ended.2.store.journal = m.journal ∧ ended.2.files.faults = fs.faults ∧
    (((∀ f, ended.1 = .error f → f.kind = .conflict) ∧
      ∀ o c, ended.2.store.owners.link? o c =
        if o = owner ∧ m.owners.link? owner c = none then
          (urls.find? c).map fun url => ⟨url, false⟩
        else m.owners.link? o c) ∨
    (∃ f, ended.1 = .error f ∧ f.kind ≠ .conflict ∧ ¬Sound m fs) ∧
      ∀ o c l, ended.2.store.owners.link? o c = some l →
        m.owners.link? o c = some l ∨ l.deleted = false) := by
  rw [run_addBatch]
  obtain ⟨hfaults, hok⟩ := run_logAll_cases m (m.fresh urls owner) fs
  refine ⟨rfl, hfaults, ?_⟩
  have hlinks := link?_replay_written (map_fst_logAll m (m.fresh urls owner) fs)
  cases hfailures : failures ((m.logAll (m.fresh urls owner)).run fs).1 with
  | nil =>
    refine .inl ⟨fun f hf => ?_, fun o c => ?_⟩
    · change verdict owner _ (failures _) = .error f at hf
      rw [hfailures] at hf
      unfold verdict at hf
      split at hf
      · contradiction
      · split at hf <;> cases hf
        rfl
    · simpa [hfailures] using hlinks o c
  | cons failure rest =>
    have hverdict : verdict owner (m.known urls owner)
        (failures ((m.logAll (m.fresh urls owner)).run fs).1) =
          .error (unwritten owner (failure :: rest)) := by
      rw [hfailures]
      rfl
    have hsound : ¬Sound m fs := fun hsound => by
      rw [hok hsound, failures, List.filterMap_map] at hfailures
      simp at hfailures
    refine .inr ⟨⟨_, hverdict, by simp [unwritten], hsound⟩, fun o c l hl => ?_⟩
    rw [hlinks] at hl
    split at hl
    · obtain ⟨url, -, rfl⟩ := Option.map_eq_some_iff.1 hl
      exact .inr rfl
    · exact .inl hl

end Outcomes

end ShortLinks.Memory
