import ShortLinks.Proofs.Store.Written
import ShortLinks.Store.Clients

/-!
# Calls in steps and at once

A call that adds or deletes looks at the links, writes its records one after another and then changes
the links. Done in these steps it ends as the operation of the store does, which takes them at once.
What it puts into the links are the records that could be written: tombstones, and links under codes
that were free. A backup collects the records, writes the journal anew and takes it up.

How far a call is says what must hold for it to end as it does alone, and doing what is next keeps
this.
-/

namespace ShortLinks

namespace Memory

open FileSystem

variable {m : Memory} {s : Setting Memory} {fs : FileSystem} {path : String} {file : FileId}

namespace Call

variable {call : Call} {known : List String} {outcomes : List (Record × Except Fault Unit)}
  {rest : List Record}

/-- What is left of a call that is logging, done at once. -/
def logRest (call : Call) (known : List String) (outcomes : List (Record × Except Fault Unit))
    (rest : List Record) (s : Setting Memory) : Except Fault Unit × Setting Memory :=
  let logged := (s.store.logAll rest).run s.files
  let outcomes := outcomes ++ logged.1
  (call.conclude known outcomes,
    ⟨{ s.store with owners := s.store.owners.replay (written outcomes) }, logged.2⟩)

/-- Logging the next record leaves what is left of the call as it was. -/
theorem logRest_cons (r : Record) :
    call.logRest known outcomes (r :: rest) s =
      call.logRest known (outcomes ++ [(r, ((s.store.log r).run s.files).1)]) rest
        ⟨s.store, ((s.store.log r).run s.files).2⟩ := by
  have hrun : (s.store.logAll (r :: rest)).run s.files =
      ((r, ((s.store.log r).run s.files).1) ::
          ((s.store.logAll rest).run ((s.store.log r).run s.files).2).1,
        ((s.store.logAll rest).run ((s.store.log r).run s.files).2).2) := rfl
  simp only [logRest, hrun, List.append_assoc, List.singleton_append]

/-- When nothing is left to log, the links are changed. -/
theorem logRest_nil : call.logRest known outcomes [] s =
    (call.conclude known outcomes,
      { s with store.owners := s.store.owners.replay (written outcomes) }) := by
  have hrun : (s.store.logAll []).run s.files = ([], s.files) := rfl
  simp only [logRest, hrun, List.append_nil]

/-- A call with a single record ends as its writing does. -/
theorem logRest_single (hconclude : ∀ outcomes, call.conclude [] outcomes =
      (outcomes.head?.map Prod.snd).getD (.ok ())) (r : Record) :
    call.logRest [] [] [r] ⟨m, fs⟩ = match (m.log r).run fs with
      | (.ok (), fs') => (.ok (), ⟨{ m with owners := m.owners.put r }, fs'⟩)
      | (.error fault, fs') => (.error fault, ⟨m, fs'⟩) := by
  rw [logRest_cons, logRest_nil, hconclude]
  rcases (m.log r).run fs with ⟨_ | _, fs'⟩ <;> rfl

/-- A call that writes is over when it has looked, or it goes on to log records. -/
theorem look_cases (hcall : ¬call.isReading) (s : Setting Memory) :
    (∃ result, call.look s.store = .ended result ∧ call.alone.run s = (result, s)) ∨
    ∃ known rest, call.look s.store = .logging known [] rest ∧
      call.alone.run s = call.logRest known [] rest s := by
  obtain ⟨m, fs⟩ := s
  cases call with
  | add code url owner =>
    rw [look, alone, run_add]
    split
    · exact .inl ⟨_, rfl, rfl⟩
    · exact .inr ⟨_, _, rfl, (logRest_single (fun _ => rfl) _).symm⟩
  | addBatch urls owner => exact .inr ⟨_, _, rfl, run_addBatch m urls fs⟩
  | delete code owner =>
    rw [look, alone, run_delete]
    cases m.owners.link? owner code with
    | none => exact .inl ⟨_, rfl, rfl⟩
    | some link =>
      simp only
      split
      · exact .inl ⟨_, rfl, rfl⟩
      · exact .inr ⟨_, _, rfl, (logRest_single (fun _ => rfl) _).symm⟩
  | backup => exact absurd rfl hcall

/-- The records that a call has to write, by what it sees. -/
def writes (m : Memory) (call : Call) : List Record :=
  match call.look m with
  | .logging _ _ rest => rest
  | _ => []

/-- The records that a call puts into the links when it runs alone: those that could be written. -/
def puts (call : Call) (s : Setting Memory) : List Record :=
  written ((s.store.logAll (call.writes s.store)).run s.files).1

/-- The records of the links that a call is to add. -/
def additions : Call → List Record
  | add code url owner => [{ code, url, owner }]
  | addBatch urls owner => Memory.additions urls owner
  | _ => []

/-- What a call puts in is among what it writes, in the same order. -/
theorem puts_sublist (call : Call) (s : Setting Memory) :
    (call.puts s).Sublist (call.writes s.store) := by
  have hwritten := written_sublist ((s.store.logAll (call.writes s.store)).run s.files).1
  rwa [map_fst_logAll] at hwritten

/-- A backup writes nothing of its own. -/
theorem writes_backup (m : Memory) : backup.writes m = [] := by
  rw [writes, look]
  split
  · next h => split at h <;> cases h
  · rfl

/-- The links after a call are those before, with what it puts into them. -/
theorem owners_alone (call : Call) (s : Setting Memory) :
    (call.alone.run s).2.store.owners = s.store.owners.replay (call.puts s) := by
  by_cases hcall : call.isReading
  · cases call with
    | backup =>
      rw [puts, writes_backup]
      exact owners_backup s.store s.files
    | _ => cases hcall
  · obtain ⟨result, hlook, hrun⟩ | ⟨known, rest, hlook, hrun⟩ := look_cases hcall s
    · rw [hrun, puts, writes, hlook]
      rfl
    · rw [hrun, puts, writes, hlook]
      rfl

/-- The lines of a journal that is open for appending are those before, with what the call puts into
the links. -/
theorem wrote_alone (hcall : ¬call.isReading)
    (hjournal : s.store.journal = some { path, writer := some file }) :
    Wrote file (call.puts s) s.store s.files (call.alone.run s).2.store
      (call.alone.run s).2.files := by
  obtain ⟨result, hlook, hrun⟩ | ⟨known, rest, hlook, hrun⟩ := look_cases hcall s
  · rw [hrun, puts, writes, hlook]
    exact .refl file s.store s.files
  · rw [hrun, puts, writes, hlook]
    exact ⟨rfl, rfl, grew_logAll hjournal rest s.files⟩

/-- What a call has to write: one tombstone, or links under codes that are free. -/
theorem writes_cases (m : Memory) (call : Call) :
    (∃ r : Record, r.deleted ∧ call.writes m = [r]) ∨
      ((call.writes m).map Owners.key).Nodup ∧
        ∀ r ∈ call.writes m, m.owners.link? r.owner r.code = none := by
  cases call with
  | add code url owner =>
    rw [writes, look]
    split
    · next h =>
      split at h
      · cases h
      · next hfree =>
        cases h
        refine .inr ⟨List.nodup_singleton _, fun r hr => ?_⟩
        cases List.mem_singleton.1 hr
        simpa using hfree
    · exact .inr ⟨List.nodup_nil, nofun⟩
  | addBatch urls owner =>
    refine .inr ⟨nodup_keys_fresh m urls owner, fun r hr => ?_⟩
    obtain ⟨rfl, -, -, hfree⟩ := mem_fresh.1 hr
    exact hfree
  | delete code owner =>
    rw [writes, look]
    cases m.owners.link? owner code with
    | none => exact .inr ⟨List.nodup_nil, nofun⟩
    | some link =>
      by_cases hdeleted : link.deleted
      · simp only [if_pos hdeleted]
        exact .inr ⟨List.nodup_nil, nofun⟩
      · simp only [if_neg hdeleted]
        exact .inl ⟨_, rfl, rfl⟩
  | backup =>
    rw [writes_backup]
    exact .inr ⟨List.nodup_nil, nofun⟩

/-- The links that a call adds are all different, and none of them was there. -/
theorem puts_free (call : Call) (s : Setting Memory) :
    (((call.puts s).filter fun r => !r.deleted).map Owners.key).Nodup ∧
      ∀ r ∈ (call.puts s).filter fun r => !r.deleted,
        s.store.owners.link? r.owner r.code = none := by
  have hsublist := (List.filter_sublist (p := fun r => !r.deleted)).trans (call.puts_sublist s)
  obtain ⟨r, hr, hwrites⟩ | ⟨hkeys, hfree⟩ := writes_cases s.store call
  · have hnone : (call.puts s).filter (fun r => !r.deleted) = [] := by
      refine List.filter_eq_nil_iff.2 fun r' hr' => ?_
      have hmem := (call.puts_sublist s).subset hr'
      rw [hwrites, List.mem_singleton] at hmem
      simp [hmem, hr]
    rw [hnone]
    exact ⟨List.nodup_nil, nofun⟩
  · exact ⟨(hsublist.map _).nodup hkeys, fun r hr => hfree r (hsublist.subset hr)⟩

/-- A call that is accepted adds all the links that it is to add. -/
theorem puts_of_ok (h : (call.alone.run s).1 = .ok ()) :
    (call.puts s).filter (fun r => !r.deleted) = call.additions := by
  obtain ⟨m, fs⟩ := s
  cases call with
  | add code url owner =>
    rw [alone, run_add] at h
    rw [puts, writes, look]
    split at h
    · cases h
    · next hfree =>
      simp only [if_neg hfree]
      rcases hlog : (m.log { code, url, owner }).run fs with ⟨fault | _, fs'⟩ <;> rw [hlog] at h
      · cases h
      · have hrun : ((m.logAll [{ code, url, owner }]).run fs).1 =
            [({ code, url, owner }, ((m.log { code, url, owner }).run fs).1)] := rfl
        rw [hrun, hlog]
        rfl
  | addBatch urls owner =>
    rw [alone, run_addBatch] at h
    obtain ⟨hknown, hfailures⟩ := verdict_eq_ok_iff.1 h
    have hputs : (addBatch urls owner).puts ⟨m, fs⟩ = Memory.additions urls owner := by
      rw [← fresh_of_known_eq_nil hknown, ← map_fst_logAll m (m.fresh urls owner) fs]
      exact written_of_failures_eq_nil hfailures
    rw [hputs]
    refine List.filter_eq_self.2 fun r hr => ?_
    obtain ⟨entry, -, rfl⟩ := List.mem_map.1 hr
    rfl
  | delete code owner =>
    refine List.filter_eq_nil_iff.2 fun r hr => ?_
    have hmem := (puts_sublist (delete code owner) ⟨m, fs⟩).subset hr
    rw [writes, look] at hmem
    cases hlink : m.owners.link? owner code with
    | none => simp [hlink] at hmem
    | some link =>
      by_cases hdeleted : link.deleted <;> simp [hlink, hdeleted] at hmem
      simp [hmem]
  | backup =>
    rw [puts, writes_backup]
    rfl

end Call

variable {fs' : FileSystem} {journal : Journal} {id : FileId} {base base' setting : Setting Memory}
  {call : Call} {stage : Stage}

/-- Without a journal there is nothing to back up to. -/
theorem run_backup_none (hjournal : m.journal = none) (fs : FileSystem) :
    backup.run ⟨m, fs⟩ = (.ok (), ⟨m, fs⟩) := by
  rw [backup, run_bind, Action.run_store]
  simp only [hjournal]
  rfl

/-- A backup that could not write the journal anew is over. -/
theorem run_backup_of_error {f : Fault} (hjournal : m.journal = some journal)
    (hrenew : (journal.renew m.owners.snapshot).run fs = (.error f, fs')) :
    backup.run ⟨m, fs⟩ = (.error f, ⟨m, fs'⟩) := by
  rw [run_backup hjournal, Journal.replace, run_bind, hrenew]

/-- A backup that has written the journal anew takes it up. -/
theorem run_backup_of_ok (hjournal : m.journal = some journal)
    (hrenew : (journal.renew m.owners.snapshot).run fs = (.ok id, fs')) :
    backup.run ⟨m, fs⟩ = match journal.takeUp.run fs' with
      | (.ok journal', fs'') => (.ok (), ⟨{ m with journal := some journal' }, fs''⟩)
      | (.error f, fs'') => (.error f, ⟨m, fs''⟩) := by
  have hrun := run_backup hjournal fs
  rw [Journal.replace, run_bind, hrenew] at hrun
  exact hrun

/-- A call is on its way to where it ends when it runs alone on what the turns have left. -/
def Stage.Follows (call : Call) (base s : Setting Memory) : Stage → Prop
  | .entered => ¬call.isReading → s = base
  | .logging known outcomes rest =>
    ¬call.isReading ∧ call.logRest known outcomes rest s = call.alone.run base
  | .collected records => call = .backup ∧ records = base.store.owners.snapshot
  | .holding records => call = .backup ∧ records = base.store.owners.snapshot ∧ s = base
  | .renewed => call = .backup ∧ s.store = base.store ∧ ∃ journal id,
      base.store.journal = some journal ∧
      (journal.renew base.store.owners.snapshot).run base.files = (.ok id, s.files)
  | .ended _ => ¬call.isReading → s = base

/-- The only call for which the readers' lock is enough is a backup. -/
theorem Call.eq_backup (hcall : call.isReading) : call = .backup := by
  cases call with
  | backup => rfl
  | _ => cases hcall

/-- A backup that can write the journal anew has done so. -/
theorem Call.work_holding {records : List Record} (hjournal : setting.store.journal = some journal)
    (hrenew : (journal.renew records).run setting.files = (.ok id, fs')) (call : Call) :
    call.work setting (.holding records) = (.renewed, ⟨setting.store, fs'⟩) := by
  rw [work, hjournal]
  dsimp only
  rw [hrenew]

/-- A backup that can take the journal up is over. -/
theorem Call.work_renewed {journal' : Journal} (hjournal : m.journal = some journal)
    (htakeUp : journal.takeUp.run fs = (.ok journal', fs')) (call : Call) :
    call.work ⟨m, fs⟩ .renewed =
      (.ended (.ok ()), ⟨{ m with journal := some journal' }, fs'⟩) := by
  rw [work, hjournal]
  dsimp only
  rw [htakeUp]

/-- A call that does what is next is on its way still, or it ends as it does alone. -/
theorem Stage.Follows.work (h : stage.Follows call base setting) (hgoing : stage.result? = none)
    (hstore : call.isReading → setting.store = base.store)
    (hfiles : call.isReading → stage.needsJournal ∨ base.store.journal = none → setting = base) :
    (call.work setting stage).1.result? = none ∧
        (call.work setting stage).1.Follows call base (call.work setting stage).2 ∨
      call.work setting stage = (.ended (call.alone.run base).1, (call.alone.run base).2) := by
  cases stage with
  | entered =>
    by_cases hcall : call.isReading
    · obtain rfl := Call.eq_backup hcall
      cases hjournal : base.store.journal with
      | none =>
        obtain rfl := hfiles hcall (.inr hjournal)
        have halone : Call.backup.alone.run setting = (.ok (), setting) :=
          run_backup_none hjournal setting.files
        rw [halone, Call.work, Call.look, hjournal]
        exact .inr rfl
      | some journal =>
        rw [Call.work, Call.look, hstore hcall, hjournal]
        exact .inl ⟨rfl, rfl, rfl⟩
    · obtain rfl := h hcall
      rw [Call.work]
      obtain ⟨result, hlook, hrun⟩ | ⟨known, rest, hlook, hrun⟩ := Call.look_cases hcall setting
      · rw [hlook, hrun]
        exact .inr rfl
      · rw [hlook]
        exact .inl ⟨rfl, hcall, hrun.symm⟩
  | logging known outcomes rest =>
    obtain ⟨hcall, hrest⟩ := h
    cases rest with
    | nil =>
      rw [← hrest, Call.logRest_nil]
      exact .inr rfl
    | cons r rest =>
      rw [Call.logRest_cons] at hrest
      exact .inl ⟨rfl, hcall, hrest⟩
  | collected records =>
    obtain ⟨rfl, hrecords⟩ := h
    exact .inl ⟨rfl, rfl, hrecords, hfiles rfl (.inl rfl)⟩
  | holding records =>
    obtain ⟨rfl, rfl, rfl⟩ := h
    obtain ⟨m, fs⟩ := setting
    rw [Call.work]
    cases hjournal : m.journal with
    | none =>
      have halone : Call.backup.alone.run ⟨m, fs⟩ = _ := run_backup_none hjournal fs
      rw [halone]
      exact .inr rfl
    | some journal =>
      simp only
      rcases hrenew : (journal.renew m.owners.snapshot).run fs with ⟨f | id, fs'⟩
      · have halone : Call.backup.alone.run ⟨m, fs⟩ = _ := run_backup_of_error hjournal hrenew
        rw [halone]
        exact .inr rfl
      · exact .inl ⟨rfl, rfl, rfl, journal, id, hjournal, hrenew⟩
  | renewed =>
    obtain ⟨rfl, hsame, journal, id, hjournal, hrenew⟩ := h
    obtain ⟨m, fs⟩ := setting
    obtain ⟨m, before⟩ := base
    cases hsame
    have hsome : m.journal = some journal := hjournal
    have halone : Call.backup.alone.run ⟨m, before⟩ = _ := run_backup_of_ok hjournal hrenew
    rw [Call.work, halone]
    simp only [hsome]
    rcases journal.takeUp.run fs with ⟨f | journal', fs''⟩
    · exact .inr rfl
    · exact .inr rfl
  | ended result => cases hgoing

/-- Looking at the store takes nothing of the journal. -/
theorem Call.hasJournal_look (call : Call) (m : Memory) : (call.look m).hasJournal = false := by
  cases call with
  | add code url owner =>
    rw [look]
    split <;> rfl
  | addBatch urls owner => rfl
  | delete code owner =>
    rw [look]
    split
    · rfl
    · split <;> rfl
  | backup =>
    rw [look]
    split <;> rfl

/-- A call has the journal for itself only after it needed the journal. -/
theorem Call.hasJournal_work (h : (call.work setting stage).1.hasJournal) :
    stage.hasJournal ∨ stage.needsJournal := by
  cases stage with
  | entered =>
    rw [Call.work, hasJournal_look] at h
    cases h
  | logging known outcomes rest => cases rest <;> cases h
  | collected records => exact .inr rfl
  | holding records => exact .inl rfl
  | renewed => exact .inl rfl
  | ended result => cases h

/-- A backup that goes on leaves the store as it is, and the files unless it has the journal. -/
theorem Stage.Follows.goesOn (h : stage.Follows .backup base setting) (hgoing : stage.result? = none)
    (hnext : (Call.backup.work setting stage).1.result? = none) :
    (Call.backup.work setting stage).2.store = setting.store ∧
      ((Call.backup.work setting stage).1.hasJournal = false →
        (Call.backup.work setting stage).2 = setting ∧ stage.hasJournal = false) := by
  cases stage with
  | entered => exact ⟨rfl, fun _ => ⟨rfl, rfl⟩⟩
  | logging known outcomes rest => exact absurd rfl h.1
  | collected records => exact ⟨rfl, nofun⟩
  | holding records =>
    revert hnext
    rw [Call.work]
    split
    · exact nofun
    · split
      · exact fun _ => ⟨rfl, nofun⟩
      · exact nofun
  | renewed =>
    revert hnext
    rw [Call.work]
    split
    · exact nofun
    · split <;> exact nofun
  | ended result => cases hgoing

/-- A backup that has not the journal for itself is founded on the links alone. -/
theorem Stage.Follows.of_owners {setting' : Setting Memory} (h : stage.Follows call base setting)
    (hcall : call.isReading) (hjournal : stage.hasJournal = false)
    (howners : base'.store.owners = base.store.owners) : stage.Follows call base' setting' := by
  cases stage with
  | entered => exact fun hwriting => absurd hcall hwriting
  | logging known outcomes rest => exact absurd hcall h.1
  | collected records => exact ⟨h.1, h.2.trans (by rw [howners])⟩
  | holding records => cases hjournal
  | renewed => cases hjournal
  | ended result => exact fun hwriting => absurd hcall hwriting

end Memory

end ShortLinks
