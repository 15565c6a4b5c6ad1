import ShortLinks.Proofs.Clients.Founded
import ShortLinks.Proofs.Session.FailedBackup

/-!
# Clients take turns

Whatever clients do at once, the store is as if they had called it one after another. The order is
the one in which they took the lock; only backups that no other call stands between may be done in
another order, the one in which they got the journal. A call takes its turn when it knows how it
ends: one that writes has held the lock alone up to then, and a backup has had the journal for itself
while nobody could change the links.

So a code is added for an owner only once. The journal gives the links in memory whenever nobody
holds the lock for writing, as long as its last line had ended when the store was opened and the new
file of every backup could be opened.
-/

namespace ShortLinks.Memory

open FileSystem

namespace Clients

variable {start base : Setting Memory} {s s' : Clients} {turns : List Turn} {i : Nat} {call : Call}
  {stage : Stage} {path : String} {file : FileId} {fs' : FileSystem}

/-- The turns explain how it is with the clients. -/
structure Explains (start : Setting Memory) (s : Clients) (turns : List Turn)
    (base : Setting Memory) : Prop where
  accounts : Accounts start s turns base
  founded : Founded s base

namespace Explains

/-- A client that holds the lock for writing is alone in a call. -/
theorem idle_others (h : Explains start s turns base)
    (hcurrent : (s.client i).current = some (call, stage)) :
    s.lock.isReading ∨ s.lock.holders = [i] ∧ ∀ j, j ≠ i → (s.client j).current = none := by
  have hmem := h.accounts.mem_holders hcurrent
  cases hlock : s.lock with
  | reading holders => exact .inl rfl
  | writing holder =>
    rw [hlock] at hmem
    obtain rfl := List.mem_singleton.1 hmem
    refine .inr ⟨rfl, fun j hne => h.accounts.idle ?_⟩
    rw [hlock]
    exact fun hj => hne (List.mem_singleton.1 hj)

/-- What is pending while nobody writes are backups. -/
theorem backup_of_pending (h : Explains start s turns base) (hreading : s.lock.isReading)
    {e : Nat × Call} (he : e ∈ s.pending) : e.2 = .backup := by
  obtain ⟨j, -, hmem⟩ := List.mem_filterMap.1 he
  obtain ⟨call, hpending, rfl⟩ := Option.map_eq_some_iff.1 hmem
  rw [Client.pending] at hpending
  obtain ⟨⟨call', stage⟩, hcurrent, hsome⟩ := Option.bind_eq_some_iff.1 hpending
  dsimp only at hsome
  split at hsome <;> cases hsome
  exact Call.eq_backup ((h.founded.mode j call stage hcurrent).trans hreading)

/-- Whatever a client does, the turns explain it, with another one at most. -/
theorem move (h : Explains start s turns base) (hmove : Moves s s') :
    ∃ later base', Explains start s' (turns ++ later) base' := by
  have hsame (haccounts : Accounts start s' turns base) (hfounded : Founded s' base) :
      ∃ later base', Explains start s' (turns ++ later) base' := by
    refine ⟨[], base, ?_, hfounded⟩
    rw [List.append_nil]
    exact haccounts
  obtain ⟨haccounts, hfounded⟩ := h
  cases hmove with
  | @read i call holders hidle hcall hlock =>
    have hholders : (Lock.reading (holders ++ [i])).holders = s.lock.holders ++ [i] := by
      rw [hlock]
      rfl
    have hfree : s.lock.isReading := by
      rw [hlock]
      rfl
    exact hsame (haccounts.enter hidle hholders call) (hfounded.enter hidle hfree hcall (.inl rfl))
  | @write i call hidle hcall hlock =>
    have hholders : (Lock.writing i).holders = s.lock.holders ++ [i] := by
      rw [hlock]
      rfl
    have hfree : s.lock.isReading := by
      rw [hlock]
      rfl
    have hnone (j : Nat) : (s.client j).current = none := by
      apply haccounts.idle
      rw [hlock]
      exact List.not_mem_nil
    exact hsame (haccounts.enter hidle hholders call)
      (hfounded.enter hidle hfree (Bool.eq_false_iff.2 hcall) (.inr hnone))
  | @work i call stage hcurrent hgoing hjournal =>
    have hothers := idle_others ⟨haccounts, hfounded⟩ hcurrent
    have hmode := hfounded.mode i call stage hcurrent
    obtain ⟨hnext, hfollows⟩ | hended := (hfounded.follows i call stage hcurrent).work hgoing
      (fun hcall => hfounded.store (hmode ▸ hcall))
      (fun hcall hfree => hfounded.setting (hmode ▸ hcall) (hfree.imp_left hjournal))
    · exact hsame (haccounts.goOn hcurrent hgoing hnext)
        (hfounded.goOn hcurrent hgoing hjournal (hothers.imp_right And.right) hnext hfollows)
    · have halone : s.lock.holders = [i] ∨ call = .backup ∧ ∀ e ∈ s.pending, e.2 = .backup := by
        obtain hreading | hwriting := hothers
        · exact .inr ⟨Call.eq_backup (hmode.trans hreading),
            fun e => backup_of_pending ⟨haccounts, hfounded⟩ hreading⟩
        · exact .inl hwriting.1
      exact ⟨_, _, haccounts.conclude hcurrent hgoing (congrArg Prod.fst hended) halone,
        hfounded.conclude hcurrent hgoing hjournal (hothers.imp_right And.right) hended⟩
  | @leave i call result hcurrent =>
    have hothers := idle_others ⟨haccounts, hfounded⟩ hcurrent
    exact hsame (haccounts.leave hcurrent) (hfounded.leave hcurrent (hothers.imp_right And.right))

/-- Whatever clients do one after another, the turns stay and others come behind them. -/
theorem runs (h : Explains start s turns base) (hrun : Runs s s') :
    ∃ later base', Explains start s' (turns ++ later) base' := by
  induction hrun with
  | refl =>
    refine ⟨[], base, ?_⟩
    rw [List.append_nil]
    exact h
  | tail _ hmove ih =>
    obtain ⟨later, base', hlater⟩ := ih
    obtain ⟨last, base'', hlast⟩ := hlater.move hmove
    rw [List.append_assoc] at hlast
    exact ⟨later ++ last, base'', hlast⟩

/-- At the start no call has had its turn. -/
theorem initial (start : Setting Memory) : Explains start (atRest start) [] start where
  accounts :=
    ⟨.nil, .nil, fun _ => rfl, List.nodup_nil, fun _ => ⟨nofun, fun h => absurd rfl h⟩⟩
  founded := ⟨fun _ => ⟨nofun, nofun⟩, nofun, nofun, fun _ => rfl, fun _ _ => rfl⟩

/-- When nobody holds the lock, nothing is pending and the store is as the turns have left it. -/
theorem at_rest (h : Explains start s turns base) (hfree : s.lock.holders = []) :
    s.pending = [] ∧ s.setting = base ∧ ∀ i, (s.client i).current = none := by
  have hnone (i : Nat) : (s.client i).current = none := by
    apply h.accounts.idle
    rw [hfree]
    exact List.not_mem_nil
  have hreading : s.lock.isReading := by
    cases hlock : s.lock with
    | reading holders => rfl
    | writing holder =>
      rw [hlock] at hfree
      cases hfree
  refine ⟨?_, h.founded.setting hreading (.inl (h.founded.journal_eq_none hnone)), hnone⟩
  rw [pending, hfree]
  rfl

/-- While nobody holds the lock for writing, the journal gives the links, if it did at the start and
every new file of a backup could be opened. -/
theorem replays (h : Explains start s turns base) (hkept : Kept path file start)
    (hopened : ∀ t ∈ turns, ¬t.Unopened path) (hreading : s.lock.isReading) :
    Replays path s.setting := by
  obtain ⟨file', hkept'⟩ := h.accounts.inTurn.kept hkept hopened
  cases hjournal : s.journal with
  | none =>
    rw [h.founded.setting hreading (.inl hjournal)]
    exact hkept'.replays
  | some i =>
    have hhas := (h.founded.journal i).1 hjournal
    rw [Client.hasJournal, Option.any_eq_true] at hhas
    obtain ⟨⟨call, stage⟩, hcurrent, hstage⟩ := hhas
    have hfollows := h.founded.follows i call stage hcurrent
    cases stage with
    | holding records =>
      obtain ⟨-, -, hsame⟩ := hfollows
      rw [hsame]
      exact hkept'.replays
    | renewed =>
      obtain ⟨-, hstore, journal, id, hsome, hrenew⟩ := hfollows
      cases hsome.symm.trans hkept'.durable.journal
      have hkeeping := Journal.keeping_renew hrenew
      have hread : Journal.read (s.setting.files.bytes id) =
          { records := base.store.owners.snapshot } := by
        rw [hkeeping.bytes, Journal.read_lines]
      refine ⟨id, hkeeping.stands, by rw [hread], ?_⟩
      rw [linksIn, hread, hstore]
      exact (Owners.same_replay_snapshot _).agree (Owners.populated_empty.replay _)
        hkept'.durable.populated
    | _ => cases hstage

end Explains

/-- A backup that has the journal for itself and can replace it may end at once. -/
theorem Runs.end_backup {first : Clients} {j j' : Journal} (hrun : Runs first s)
    (hcurrent : (s.client i).current =
      some (.backup, .holding s.setting.store.owners.snapshot))
    (hjournal : s.setting.store.journal = some j)
    (hreplace : (j.replace s.setting.store.owners.snapshot).run s.setting.files = (.ok j', fs')) :
    ∃ s', Runs first s' ∧ s'.entered = s.entered ∧ s'.lock = s.lock.without i ∧
      s'.client i = { answers := (s.client i).answers ++ [(.backup, .ok ())] } ∧
      ∀ k, k ≠ i → s'.client k = s.client k := by
  obtain ⟨id, fs, hrenew, htakeUp⟩ := run_bind_ok hreplace
  have hrenewed : Call.backup.work s.setting (.holding s.setting.store.owners.snapshot) =
      (.renewed, ⟨s.setting.store, fs⟩) := Call.work_holding hjournal hrenew _
  have hended : Call.backup.work ⟨s.setting.store, fs⟩ .renewed =
      (.ended (.ok ()), ⟨{ s.setting.store with journal := some j' }, fs'⟩) :=
    Call.work_renewed hjournal htakeUp _
  have hfirst := hrun.tail (.work hcurrent rfl nofun)
  have hcurrent₁ : ((s.work i .backup (.holding s.setting.store.owners.snapshot)).client i).current =
      some (.backup, .renewed) := by
    rw [client_work, if_pos rfl, hrenewed]
  have hsecond := hfirst.tail (.work hcurrent₁ rfl nofun)
  have hsetting : (s.work i .backup (.holding s.setting.store.owners.snapshot)).setting =
      ⟨s.setting.store, fs⟩ := congrArg Prod.snd hrenewed
  have hcurrent₂ : (((s.work i .backup (.holding s.setting.store.owners.snapshot)).work i .backup
      .renewed).client i).current = some (.backup, .ended (.ok ())) := by
    rw [client_work, if_pos rfl, hsetting, hended]
  refine ⟨_, hsecond.tail (.leave hcurrent₂), rfl, rfl, ?_, fun k hk => ?_⟩
  · simp only [client_leave, client_work, if_true]
  · simp only [client_leave, client_work, if_neg hk]

/-- Clients call a store at once, any number of them, in any order that the lock allows. There are
turns in which the same calls run one after another, each alone on what the one before has left:

* They have the order in which the calls took the lock, but that backups with no other call between
  them may have changed places. The calls of which it is not known yet how they end come behind.
  Every client is told how its calls ended in their turns. Whatever is called from then on, these
  turns stay, and others come behind them: only backups that held the lock together change places.
* When nobody holds the lock, the links, the files and the journal are as the turns have left them,
  and if all backups ended alike, the turns can be had in the very order in which the calls took the
  lock, with the same answers. While nobody holds it for writing, the links are as the turns have left
  them.
* The links are those of the start with the records that the turns put in. These add each link once,
  and none that was there at the start; a call that is accepted adds all that it is to add.
* While nobody holds the lock for writing, the file at the path of the journal gives the links, if it
  was open for appending and gave them at the start, its last line ended, and no backup has failed
  because it could not open the new file. -/
theorem clients_take_turns (hrun : Runs (atRest start) s) :
    ∃ turns base, InTurn start turns base ∧
      Shuffled s.entered (turns.map Turn.entry ++ s.pending) ∧
      (∀ i, answersTo turns i = (s.client i).outcomes) ∧
      (∀ s', Runs s s' → ∃ later base', InTurn start (turns ++ later) base' ∧
        Shuffled s'.entered ((turns ++ later).map Turn.entry ++ s'.pending) ∧
        ∀ i, answersTo (turns ++ later) i = (s'.client i).outcomes) ∧
      (s.lock.holders = [] → s.setting = base ∧
        ∀ ending, (∀ t ∈ turns, t.call = .backup → t.result = ending) →
          ∃ ordered, InTurn start ordered base ∧ ordered.map Turn.entry = s.entered ∧
            ∀ i, answersTo ordered i = (s.client i).answers) ∧
      (s.lock.isReading → s.setting.store.owners = base.store.owners) ∧
      base.store.owners = start.store.owners.replay (turns.flatMap Turn.records) ∧
      ((turns.flatMap Turn.added).map Owners.key).Nodup ∧
      (∀ r ∈ turns.flatMap Turn.added, start.store.owners.link? r.owner r.code = none) ∧
      (∀ t ∈ turns, t.result = .ok () → t.added = t.call.additions) ∧
      ∀ path file, Kept path file start → (∀ t ∈ turns, ¬t.Unopened path) → s.lock.isReading →
        Replays path s.setting := by
  obtain ⟨turns, base, h⟩ := (Explains.initial start).runs hrun
  have hinTurn := h.accounts.inTurn
  obtain ⟨hadded, habsent⟩ := hinTurn.added_once
  refine ⟨turns, base, hinTurn, h.accounts.order, h.accounts.answers, fun s' hlater => ?_,
    fun hfree => ?_, fun hreading => by rw [h.founded.store hreading], hinTurn.owners, hadded,
    habsent, fun t => hinTurn.added_of_ok, fun path file => h.replays⟩
  · obtain ⟨later, base', hnext, -⟩ := h.runs hlater
    exact ⟨later, base', hnext.inTurn, hnext.order, hnext.answers⟩
  · obtain ⟨hpending, hsetting, hidle⟩ := h.at_rest hfree
    refine ⟨hsetting, fun ending hbackups => ?_⟩
    have horder := h.accounts.order
    rw [hpending, List.append_nil] at horder
    obtain ⟨ordered, hentries, hdone, hanswers⟩ := horder.exchange rfl fun t ht hbackup =>
      ⟨hbackups t ht hbackup, hinTurn.records_backup ht hbackup⟩
    refine ⟨ordered, hinTurn.relabel hdone, hentries, fun i => ?_⟩
    rw [hanswers, h.accounts.answers, Client.outcomes_of_idle (hidle i)]

open Session

/-- A client adds a link. Then two others back the store up at once, and the one that came last has
done so while the other has not yet begun to write. -/
theorem runs_overlapping : ∃ s, Runs (atRest ⟨oneLink, oneEnded noFaults⟩) s ∧
    s.lock = .reading [0] ∧
    s.entered = [(2, .add "b" "http://b/" "u"), (0, .backup), (1, .backup)] ∧
    (s.client 1).answers = [(.backup, .ok ())] ∧
    ∀ i, ∀ o ∈ (s.client i).outcomes, o.2 = .ok () := by
  have h₁ : Runs (atRest ⟨oneLink, oneEnded noFaults⟩)
      (enter _ 2 (.add "b" "http://b/" "u") (.writing 2)) := .tail .refl (.write rfl nofun rfl)
  have h₂ := h₁.tail (.work (i := 2) rfl rfl nofun)
  have h₃ := h₂.tail (.work (i := 2) rfl rfl fun _ => rfl)
  have h₄ := h₃.tail (.work (i := 2) rfl rfl nofun)
  have h₅ := h₄.tail (.leave (i := 2) rfl)
  have h₆ : Runs _ (enter _ 0 .backup (.reading ([] ++ [0]))) := h₅.tail (.read rfl rfl rfl)
  have h₇ : Runs _ (enter _ 1 .backup (.reading ([0] ++ [1]))) := h₆.tail (.read rfl rfl rfl)
  have h₈ := h₇.tail (.work (i := 1) rfl rfl nofun)
  have h₉ := h₈.tail (.work (i := 0) rfl rfl nofun)
  have h₁₀ := h₉.tail (.work (i := 1) rfl rfl fun _ => rfl)
  have hreplaced : ((Journal.replace { path := "links", writer := some 0 }
      [firstLink, ⟨"b", "http://b/", "u", false⟩]).run
        ((add "b" "http://b/" "u").run ⟨oneLink, oneEnded noFaults⟩).2.files).1.isOk := by
    decide +kernel
  have hsnapshot : ((add "b" "http://b/" "u").run
      ⟨oneLink, oneEnded noFaults⟩).2.store.owners.snapshot =
        [firstLink, ⟨"b", "http://b/", "u", false⟩] :=
    List.mergeSort_of_pairwise (by decide +kernel)
  rw [← hsnapshot] at hreplaced
  rcases hreplace : (Journal.replace { path := "links", writer := some 0 } _).run
    ((add "b" "http://b/" "u").run ⟨oneLink, oneEnded noFaults⟩).2.files with ⟨f | j', fs'⟩ <;>
    rw [hreplace] at hreplaced
  · cases hreplaced
  · obtain ⟨s, hrun, hentered, hlock, hlast, hothers⟩ := h₁₀.end_backup (i := 1) rfl rfl hreplace
    refine ⟨s, hrun, hlock, hentered, by rw [hlast]; rfl, fun i => ?_⟩
    match i with
    | 0 =>
      rw [hothers 0 (by decide)]
      exact nofun
    | 1 =>
      rw [hlast]
      rintro o (_ | ⟨_, ⟨⟩⟩)
      rfl
    | 2 =>
      rw [hothers 2 (by decide)]
      rintro o (_ | ⟨_, ⟨⟩⟩)
      rfl
    | n + 3 =>
      rw [hothers (n + 3) (by omega)]
      exact nofun

/-- The links are in the file while the other backup has still to begin. -/
theorem clients_take_turns_overlapping : ∃ s turns base,
    Runs (atRest ⟨oneLink, oneEnded noFaults⟩) s ∧ s.lock = .reading [0] ∧
    s.entered = [(2, .add "b" "http://b/" "u"), (0, .backup), (1, .backup)] ∧
    (s.client 1).answers = [(.backup, .ok ())] ∧
    InTurn ⟨oneLink, oneEnded noFaults⟩ turns base ∧
    Shuffled s.entered (turns.map Turn.entry ++ s.pending) ∧
    (∀ i, answersTo turns i = (s.client i).outcomes) ∧ Replays "links" s.setting := by
  obtain ⟨s, hrun, hlock, hentered, hanswer, hoks⟩ := runs_overlapping
  obtain ⟨turns, base, hinTurn, horder, hanswers, -, -, -, -, -, -, -, hreplays⟩ :=
    clients_take_turns hrun
  have hkeeping : Keeping "links" 0 (Journal.lineBytes firstLink) (oneEnded noFaults) :=
    keeping_only _ rfl rfl
  have hkept : Kept "links" 0 ⟨oneLink, oneEnded noFaults⟩ :=
    ⟨durable_oneEnded noFaults, hkeeping⟩
  have hopened : ∀ t ∈ turns, ¬t.Unopened "links" := by
    rintro t ht ⟨-, f, hresult, -⟩
    have hmem : t.outcome ∈ answersTo turns t.client :=
      List.mem_map_of_mem (List.mem_filter.2 ⟨ht, decide_eq_true rfl⟩)
    rw [hanswers] at hmem
    cases hresult.symm.trans (hoks t.client _ hmem)
  refine ⟨s, turns, base, hrun, hlock, hentered, hanswer, hinTurn, horder, hanswers,
    hreplays "links" 0 hkept hopened ?_⟩
  rw [hlock]
  rfl

/-- A link is added behind a record whose line has not ended. It is accepted and nobody holds the
lock, but the file gives neither. -/
theorem joined_line_not_replayed : ∃ s,
    (Memory.open "links" .append).run oneUnended = ({ result := .ok oneLink }, oneUnended.tick) ∧
    Runs (atRest ⟨oneLink, oneUnended.tick⟩) s ∧ s.lock = .reading [] ∧
    (s.client 0).answers = [(.add "b" "http://b/" "u", .ok ())] ∧ ¬Replays "links" s.setting := by
  have h₁ : Runs (atRest ⟨oneLink, oneUnended.tick⟩)
      (enter _ 0 (.add "b" "http://b/" "u") (.writing 0)) := .tail .refl (.write rfl nofun rfl)
  have h₂ := h₁.tail (.work (i := 0) rfl rfl nofun)
  have h₃ := h₂.tail (.work (i := 0) rfl rfl fun _ => rfl)
  have h₄ := h₃.tail (.work (i := 0) rfl rfl nofun)
  have h₅ := h₄.tail (.leave (i := 0) rfl)
  obtain ⟨s, hrun, hlock, hanswers, hadd⟩ : ∃ s, Runs (atRest ⟨oneLink, oneUnended.tick⟩) s ∧
      s.lock = .reading [] ∧ (s.client 0).answers = [(.add "b" "http://b/" "u", .ok ())] ∧
      (add "b" "http://b/" "u").run ⟨oneLink, oneUnended.tick⟩ = (.ok (), s.setting) :=
    ⟨_, h₅, rfl, rfl, rfl⟩
  refine ⟨s, run_open_oneUnended, hrun, hlock, hanswers, ?_⟩
  have hwrote := wrote_add rfl hadd
  have hkeeping := hwrote.keeping (keeping_only oneUnended.tick rfl rfl)
  rintro ⟨file, hstands, -, hagree⟩
  obtain rfl := hstands.unique hkeeping.stands
  have hcomplete : (Journal.read (Text.encode firstLink.lineText)).complete := by
    rw [Journal.read_lineText]
  obtain ⟨-, hrecords⟩ := Journal.read_behind hcomplete [⟨"b", "http://b/", "u", false⟩]
  have hempty : linksIn s.setting.files 0 = .empty := by
    rw [linksIn, hkeeping.bytes, hrecords]
    exact restored_lineText firstLink ⟨"b", "http://b/", "u", false⟩
  have hlink := hagree.links "u" "b"
  rw [hempty, hwrote.owners] at hlink
  cases hlink

end Clients

end ShortLinks.Memory
