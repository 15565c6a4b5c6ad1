import ShortLinks.Proofs.Clients.Accounts

/-!
# What clients at once are in the middle of

Whatever a client is in the middle of is founded on what the turns have left. One that holds the lock
for writing is alone. Of those that read, at most one has the journal for itself and changes the
files, and the others rely on the links only, which it leaves as they are.
-/

namespace ShortLinks.Memory

variable {base base' : Setting Memory} {call : Call} {stage : Stage}

/-- A client has the journal for itself. -/
def Client.hasJournal (c : Client) : Bool := c.current.any fun (_, stage) => stage.hasJournal

/-- In a call, a client has the journal at the stages that have it. -/
theorem Client.hasJournal_eq {c : Client} (hcurrent : c.current = some (call, stage)) :
    c.hasJournal = stage.hasJournal := by
  rw [Client.hasJournal, hcurrent]
  rfl

/-- Without a call, a client does not have the journal. -/
theorem Client.hasJournal_of_idle {c : Client} (hidle : c.current = none) :
    c.hasJournal = false := by
  rw [Client.hasJournal, hidle]
  rfl

namespace Clients

variable {s : Clients} {i j : Nat} {lock : Lock} {result : Except Fault Unit}

/-- What clients are in the middle of is founded on what the turns have left. -/
structure Founded (s : Clients) (base : Setting Memory) : Prop where
  journal : ∀ i, s.journal = some i ↔ (s.client i).hasJournal
  mode : ∀ i call stage, (s.client i).current = some (call, stage) →
    call.isReading = s.lock.isReading
  follows : ∀ i call stage, (s.client i).current = some (call, stage) →
    stage.Follows call base s.setting
  store : s.lock.isReading → s.setting.store = base.store
  setting : s.lock.isReading → s.journal = none ∨ base.store.journal = none → s.setting = base

namespace Founded

/-- When nobody is in a call, nobody has the journal. -/
theorem journal_eq_none (h : Founded s base) (hidle : ∀ j, (s.client j).current = none) :
    s.journal = none := by
  cases hjournal : s.journal with
  | none => rfl
  | some k =>
    have hhas := (h.journal k).1 hjournal
    rw [Client.hasJournal_of_idle (hidle k)] at hhas
    cases hhas

/-- A client that takes the lock has done nothing yet. -/
theorem enter (h : Founded s base) (hidle : (s.client i).current = none)
    (hfree : s.lock.isReading) (hlock : call.isReading = lock.isReading)
    (hothers : lock.isReading ∨ ∀ j, (s.client j).current = none) :
    Founded (s.enter i call lock) base := by
  refine ⟨fun j => ?_, fun j call' stage hcurrent => ?_, fun j call' stage hcurrent => ?_,
    fun _ => h.store hfree, fun _ => h.setting hfree⟩
  · rw [client_enter]
    refine (h.journal j).trans ?_
    split
    · next heq => rw [heq, Client.hasJournal_of_idle hidle, Client.hasJournal_eq rfl]; rfl
    · rfl
  · rw [client_enter] at hcurrent
    split at hcurrent
    · cases hcurrent
      exact hlock
    · obtain hreading | hnone := hothers
      · rw [h.mode j call' stage hcurrent, hfree, lock_enter, hreading]
      · rw [hnone] at hcurrent
        cases hcurrent
  · rw [client_enter] at hcurrent
    split at hcurrent
    · cases hcurrent
      intro hwriting
      obtain hreading | hnone := hothers
      · exact absurd (hlock.trans hreading) hwriting
      · exact h.setting hfree (.inl (h.journal_eq_none hnone))
    · exact h.follows j call' stage hcurrent

/-- A client that lets go of the lock leaves what the turns have left. -/
theorem leave (h : Founded s base) (hcurrent : (s.client i).current = some (call, .ended result))
    (hothers : s.lock.isReading ∨ ∀ j, j ≠ i → (s.client j).current = none) :
    Founded (s.leave i call result) base := by
  have hlock : (s.leave i call result).lock.isReading := by
    rw [lock_leave]
    cases s.lock <;> rfl
  have hwritten (hwriting : ¬s.lock.isReading) : s.setting = base := by
    rw [← h.mode i call _ hcurrent] at hwriting
    exact h.follows i call _ hcurrent hwriting
  refine ⟨fun j => ?_, fun j call' stage hcurrent' => ?_, fun j call' stage hcurrent' => ?_,
    fun _ => ?_, fun _ hfree => ?_⟩
  · rw [client_leave]
    refine (h.journal j).trans ?_
    split
    · next heq =>
      rw [heq, Client.hasJournal_eq hcurrent, Client.hasJournal_of_idle rfl]
      rfl
    · rfl
  · rw [client_leave] at hcurrent'
    split at hcurrent'
    · cases hcurrent'
    · next hne =>
      obtain hreading | hnone := hothers
      · rw [h.mode j call' stage hcurrent', hreading, hlock]
      · rw [hnone j hne] at hcurrent'
        cases hcurrent'
  · rw [client_leave] at hcurrent'
    split at hcurrent'
    · cases hcurrent'
    · exact h.follows j call' stage hcurrent'
  · by_cases hreading : s.lock.isReading
    · exact h.store hreading
    · exact congrArg Setting.store (hwritten hreading)
  · by_cases hreading : s.lock.isReading
    · exact h.setting hreading hfree
    · exact hwritten hreading

/-- Only the client at work takes the journal or gives it back. -/
theorem journal_work (h : Founded s base) (hcurrent : (s.client i).current = some (call, stage))
    (hjournal : stage.needsJournal → s.journal = none) (j : Nat) :
    (s.work i call stage).journal = some j ↔ ((s.work i call stage).client j).hasJournal := by
  have hi := Client.hasJournal_eq hcurrent ▸ h.journal i
  have hnext : (call.work s.setting stage).1.hasJournal → stage.hasJournal ∨ stage.needsJournal :=
    Call.hasJournal_work
  rw [client_work]
  change (if (call.work s.setting stage).1.hasJournal then some i
    else if stage.hasJournal then none else s.journal) = some j ↔ _
  by_cases heq : j = i
  · rw [if_pos heq, heq, Client.hasJournal_eq rfl]
    grind
  · rw [if_neg heq, ← h.journal j]
    grind

/-- Work changes neither the lock nor the call. -/
theorem mode_work (h : Founded s base) (hcurrent : (s.client i).current = some (call, stage))
    {call' : Call} {stage' : Stage}
    (hcurrent' : ((s.work i call stage).client j).current = some (call', stage')) :
    call'.isReading = (s.work i call stage).lock.isReading := by
  rw [client_work] at hcurrent'
  split at hcurrent'
  · cases hcurrent'
    exact h.mode i call stage hcurrent
  · exact h.mode j call' stage' hcurrent'

/-- The others are in the middle of what they were in, if they are: they only read, and whoever has
the journal for itself sees that nothing happens. -/
theorem others (h : Founded s base) (hcurrent : (s.client i).current = some (call, stage))
    (hgoing : stage.result? = none) (hjournal : stage.needsJournal → s.journal = none)
    (hreading : s.lock.isReading)
    (hbase : base' = base ∨ ∃ result, call.work s.setting stage = (.ended result, base'))
    (howners : base'.store.owners = base.store.owners) (hne : j ≠ i) {call' : Call}
    {stage' : Stage} (hcurrent' : (s.client j).current = some (call', stage')) :
    stage'.Follows call' base' (call.work s.setting stage).2 := by
  have hfollows := h.follows j call' stage' hcurrent'
  have hcall : call.isReading := (h.mode i call stage hcurrent).trans hreading
  have hcall' : call'.isReading := (h.mode j call' stage' hcurrent').trans hreading
  cases hhas : stage'.hasJournal with
  | false => exact hfollows.of_owners hcall' hhas howners
  | true =>
    have hheld : s.journal = some j := (h.journal j).2 ((Client.hasJournal_eq hcurrent').trans hhas)
    -- While another client has the journal, a backup can do no more than look at the store.
    have hentered : stage = .entered := by
      cases stage with
      | entered => rfl
      | logging known outcomes rest => exact absurd hcall (h.follows i call _ hcurrent).1
      | collected records => cases hheld.symm.trans (hjournal rfl)
      | holding records =>
        cases hheld.symm.trans ((h.journal i).2 (Client.hasJournal_eq hcurrent))
        exact absurd rfl hne
      | renewed =>
        cases hheld.symm.trans ((h.journal i).2 (Client.hasJournal_eq hcurrent))
        exact absurd rfl hne
      | ended result => cases hgoing
    obtain rfl := hentered
    obtain rfl := Call.eq_backup hcall
    obtain rfl | ⟨result, hended⟩ := hbase
    · exact hfollows
    · have hsame : s.setting = base := by
        refine h.setting hreading (.inr ?_)
        cases hsome : base.store.journal with
        | none => rfl
        | some journal =>
          rw [Call.work, Call.look, h.store hreading, hsome] at hended
          cases hended
      have hbase' : s.setting = base' := congrArg Prod.snd hended
      rw [← hbase', hsame]
      rw [hsame] at hfollows
      exact hfollows

/-- A client that goes on does so on what the turns have left. -/
theorem goOn (h : Founded s base) (hcurrent : (s.client i).current = some (call, stage))
    (hgoing : stage.result? = none) (hjournal : stage.needsJournal → s.journal = none)
    (hothers : s.lock.isReading ∨ ∀ j, j ≠ i → (s.client j).current = none)
    (hnext : (call.work s.setting stage).1.result? = none)
    (hfollows : (call.work s.setting stage).1.Follows call base (call.work s.setting stage).2) :
    Founded (s.work i call stage) base := by
  refine ⟨h.journal_work hcurrent hjournal, fun _ _ _ => h.mode_work hcurrent,
    fun j call' stage' hcurrent' => ?_, fun hreading => ?_, fun hreading hfree => ?_⟩
  · rw [client_work] at hcurrent'
    split at hcurrent'
    · cases hcurrent'
      exact hfollows
    · next hne =>
      obtain hreading | hnone := hothers
      · exact h.others hcurrent hgoing hjournal hreading (.inl rfl) rfl hne hcurrent'
      · rw [hnone j hne] at hcurrent'
        cases hcurrent'
  · obtain rfl := Call.eq_backup ((h.mode i call stage hcurrent).trans hreading)
    have hstore := ((h.follows i _ stage hcurrent).goesOn hgoing hnext).1
    exact hstore.trans (h.store hreading)
  · obtain rfl := Call.eq_backup ((h.mode i call stage hcurrent).trans hreading)
    have hrest := ((h.follows i _ stage hcurrent).goesOn hgoing hnext).2
    change (Call.backup.work s.setting stage).2 = base
    change (if (Call.backup.work s.setting stage).1.hasJournal then some i
      else if stage.hasJournal then none else s.journal) = none ∨ _ at hfree
    -- The files are those that the turns have left, unless it is writing the journal anew.
    generalize Call.backup.work s.setting stage = worked at hfollows hrest hfree
    obtain ⟨next, after⟩ := worked
    cases hhas : next.hasJournal with
    | false =>
      obtain ⟨hsame, hnot⟩ := hrest hhas
      rw [hhas, hnot] at hfree
      exact hsame.trans (h.setting hreading hfree)
    | true =>
      rw [hhas] at hfree
      obtain hnone | hnone := hfree
      · cases hnone
      · cases next with
        | holding records => exact hfollows.2.2
        | renewed =>
          obtain ⟨-, -, journal, id, hsome, -⟩ := hfollows
          cases hsome.symm.trans hnone
        | _ => cases hhas

/-- A call of which it becomes known how it ends has done what the turn does. -/
theorem conclude (h : Founded s base) (hcurrent : (s.client i).current = some (call, stage))
    (hgoing : stage.result? = none) (hjournal : stage.needsJournal → s.journal = none)
    (hothers : s.lock.isReading ∨ ∀ j, j ≠ i → (s.client j).current = none)
    (hended : call.work s.setting stage = (.ended (call.alone.run base).1, (call.alone.run base).2)) :
    Founded (s.work i call stage) (call.alone.run base).2 := by
  have hsetting : (s.work i call stage).setting = (call.alone.run base).2 :=
    congrArg Prod.snd hended
  refine ⟨h.journal_work hcurrent hjournal, fun _ _ _ => h.mode_work hcurrent,
    fun j call' stage' hcurrent' => ?_, fun _ => congrArg Setting.store hsetting,
    fun _ _ => hsetting⟩
  · rw [client_work, hended] at hcurrent'
    split at hcurrent'
    · cases hcurrent'
      exact fun _ => hsetting
    · next hne =>
      obtain hreading | hnone := hothers
      · obtain rfl := Call.eq_backup ((h.mode i call stage hcurrent).trans hreading)
        have howners : (Call.backup.alone.run base).2.store.owners = base.store.owners :=
          owners_backup base.store base.files
        exact h.others hcurrent hgoing hjournal hreading (.inr ⟨_, hended⟩) howners hne hcurrent'
      · rw [hnone j hne] at hcurrent'
        cases hcurrent'

end Founded

end Clients

end ShortLinks.Memory
