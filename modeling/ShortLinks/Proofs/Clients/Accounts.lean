import ShortLinks.Proofs.Clients.Turns

/-!
# Accounts of clients at once

While clients are anywhere in their calls, the calls that took the lock either have had their turn or
are pending: it is not known yet how they end. Whatever a client does, the accounts go on: taking the
lock makes a call pending, and when it becomes known how it ends it has its turn, on what the one
before has left.
-/

namespace ShortLinks.Memory

namespace Client

/-- The call that a client is in, unless it is known how it ends. -/
def pending (c : Client) : Option Call :=
  c.current.bind fun (call, stage) => if stage.result?.isSome then none else some call

/-- The calls of a client of which it is known how they end, or ended. -/
def outcomes (c : Client) : List (Call × Except Fault Unit) :=
  c.answers ++ (c.current.bind fun (call, stage) => stage.result?.map (Prod.mk call)).toList

variable {c : Client} {call : Call} {stage : Stage} {result : Except Fault Unit}

/-- A call that is under way is pending while it has no result. -/
theorem pending_of_going (hcurrent : c.current = some (call, stage)) (hgoing : stage.result? = none) :
    c.pending = some call := by
  simp [pending, hcurrent, hgoing]

/-- A call that has ended is pending no more. -/
theorem pending_of_ended (hcurrent : c.current = some (call, .ended result)) : c.pending = none := by
  simp [pending, hcurrent, Stage.result?]

/-- A call without a result adds nothing to what a client was told. -/
theorem outcomes_of_going (hcurrent : c.current = some (call, stage))
    (hgoing : stage.result? = none) : c.outcomes = c.answers := by
  simp [outcomes, hcurrent, hgoing]

/-- A call that has ended counts, also before its client is told. -/
theorem outcomes_of_ended (hcurrent : c.current = some (call, .ended result)) :
    c.outcomes = c.answers ++ [(call, result)] := by
  simp [outcomes, hcurrent, Stage.result?]

/-- What a client without a call was told is all that it has done. -/
theorem outcomes_of_idle (hidle : c.current = none) : c.outcomes = c.answers := by
  simp [outcomes, hidle]

end Client

/-- Of these clients, the calls that are pending. -/
def pendingOf (client : Nat → Client) (clients : List Nat) : List (Nat × Call) :=
  clients.filterMap fun i => (client i).pending.map (Prod.mk i)

section pendingOf

variable {client : Nat → Client} {clients before after : List Nat} {i : Nat} {c : Client}

/-- The pending calls of one client stand between those of the clients before and after it. -/
theorem pendingOf_middle : pendingOf client (before ++ i :: after) = pendingOf client before ++
    ((client i).pending.map (Prod.mk i)).toList ++ pendingOf client after := by
  rw [pendingOf, List.filterMap_append, List.filterMap_cons, List.append_assoc]
  cases (client i).pending <;> rfl

/-- What a client does makes no difference to the others. -/
theorem pendingOf_others (hi : i ∉ clients) :
    pendingOf (fun j => if j = i then c else client j) clients = pendingOf client clients := by
  refine List.filterMap_congr fun j hj => ?_
  have hother : j ≠ i := fun heq => hi (heq ▸ hj)
  simp only [if_neg hother]

/-- A client that stays in its call makes no difference. -/
theorem pendingOf_same (hpending : c.pending = (client i).pending) :
    pendingOf (fun j => if j = i then c else client j) clients = pendingOf client clients := by
  refine List.filterMap_congr fun j _ => ?_
  by_cases heq : j = i
  · simp only [heq, if_true, hpending]
  · simp only [if_neg heq]

/-- One client is somewhere else in its calls. -/
theorem pendingOf_set (hnodup : (before ++ i :: after).Nodup) :
    pendingOf (fun j => if j = i then c else client j) (before ++ i :: after) =
      pendingOf client before ++ (c.pending.map (Prod.mk i)).toList ++ pendingOf client after := by
  rw [List.nodup_middle, List.nodup_cons, List.mem_append, not_or] at hnodup
  rw [pendingOf_middle, if_pos rfl, pendingOf_others hnodup.1.1, pendingOf_others hnodup.1.2]

end pendingOf

namespace Clients

/-- The calls that hold the lock and of which it is not known yet how they end. -/
def pending (s : Clients) : List (Nat × Call) := pendingOf s.client s.lock.holders

variable {start base : Setting Memory} {s s' : Clients} {turns : List Turn} {i : Nat} {call : Call}
  {stage : Stage} {result : Except Fault Unit} {lock : Lock}

/-- Entering a call concerns the client that enters. -/
theorem client_enter (j : Nat) : (s.enter i call lock).client j =
    if j = i then { s.client i with current := some (call, .entered) } else s.client j := rfl

/-- Working on a call concerns the client whose call it is. -/
theorem client_work (j : Nat) : (s.work i call stage).client j =
    if j = i then { s.client i with current := some (call, (call.work s.setting stage).1) }
    else s.client j := rfl

/-- Leaving a call concerns the client that leaves, which has one more answer then. -/
theorem client_leave (j : Nat) : (s.leave i call result).client j =
    if j = i then { answers := (s.client i).answers ++ [(call, result)] } else s.client j := rfl

/-- Who enters has the lock that it asked for. -/
theorem lock_enter : (s.enter i call lock).lock = lock := rfl

/-- Working on a call changes nothing about the lock. -/
theorem lock_work : (s.work i call stage).lock = s.lock := rfl

/-- Who leaves gives the lock back. -/
theorem lock_leave : (s.leave i call result).lock = s.lock.without i := rfl

/-- A client that lets go of the lock leaves it to the others that hold it. -/
theorem holders_without (hmem : i ∈ lock.holders) :
    (lock.without i).holders = lock.holders.erase i := by
  cases lock with
  | reading holders => rfl
  | writing holder =>
    obtain rfl := List.mem_singleton.1 hmem
    exact (List.erase_cons_head ..).symm

/-- The turns account for all calls: those that took the lock have had their turn, in this order, or
are pending, and every client was told how its turns ended. -/
structure Accounts (start : Setting Memory) (s : Clients) (turns : List Turn)
    (base : Setting Memory) : Prop where
  inTurn : InTurn start turns base
  order : Shuffled s.entered (turns.map Turn.entry ++ s.pending)
  answers : ∀ i, answersTo turns i = (s.client i).outcomes
  nodup : s.lock.holders.Nodup
  inside : ∀ i, i ∈ s.lock.holders ↔ (s.client i).current ≠ none

namespace Accounts

/-- Who is in a call holds the lock. -/
theorem mem_holders (h : Accounts start s turns base)
    (hcurrent : (s.client i).current = some (call, stage)) : i ∈ s.lock.holders :=
  (h.inside i).2 (by simp [hcurrent])

/-- Who does not hold the lock is in no call. -/
theorem idle (h : Accounts start s turns base) (hout : i ∉ s.lock.holders) :
    (s.client i).current = none := by
  by_contra hin
  exact hout ((h.inside i).2 hin)

/-- A client that takes the lock has its call pending. -/
theorem enter (h : Accounts start s turns base) (hidle : (s.client i).current = none)
    (hlock : lock.holders = s.lock.holders ++ [i]) (call : Call) :
    Accounts start (s.enter i call lock) turns base := by
  have hnew : i ∉ s.lock.holders := fun hmem => (h.inside i).1 hmem hidle
  have hnodup : (s.lock.holders ++ [i]).Nodup := by
    rw [List.nodup_middle, List.append_nil]
    exact List.nodup_cons.2 ⟨hnew, h.nodup⟩
  have hpending : (s.enter i call lock).pending = s.pending ++ [(i, call)] := by
    rw [pending, lock_enter, hlock]
    exact (pendingOf_set hnodup).trans (List.append_nil _)
  refine ⟨h.inTurn, ?_, fun j => ?_, ?_, fun j => ?_⟩
  · rw [hpending, ← List.append_assoc]
    exact h.order.append_right [(i, call)]
  · rw [h.answers, client_enter]
    split
    · next heq => rw [heq, Client.outcomes_of_idle hidle, Client.outcomes_of_going rfl rfl]
    · rfl
  · rw [lock_enter, hlock]
    exact hnodup
  · rw [lock_enter, hlock, List.mem_append, client_enter, List.mem_singleton]
    split
    · next heq => simp [heq]
    · next hne => simp [h.inside j, hne]

/-- A client that goes on leaves the accounts as they are. -/
theorem goOn (h : Accounts start s turns base)
    (hcurrent : (s.client i).current = some (call, stage)) (hgoing : stage.result? = none)
    (hnext : (call.work s.setting stage).1.result? = none) :
    Accounts start (s.work i call stage) turns base := by
  have hpending : (s.work i call stage).pending = s.pending :=
    pendingOf_same (by
      rw [Client.pending_of_going hcurrent hgoing, Client.pending_of_going rfl hnext])
  refine ⟨h.inTurn, ?_, fun j => ?_, h.nodup, fun j => ?_⟩
  · rw [hpending]
    exact h.order
  · rw [h.answers, client_work]
    split
    · next heq =>
      rw [heq, Client.outcomes_of_going hcurrent hgoing, Client.outcomes_of_going rfl hnext]
    · rfl
  · rw [lock_work, h.inside, client_work]
    split
    · next heq => simp [heq, hcurrent]
    · rfl

/-- A call of which it becomes known how it ends has its turn, if no other call is pending or all
that are pending are backups. -/
theorem conclude (h : Accounts start s turns base)
    (hcurrent : (s.client i).current = some (call, stage)) (hgoing : stage.result? = none)
    (hnext : (call.work s.setting stage).1 = .ended (call.alone.run base).1)
    (halone : s.lock.holders = [i] ∨ call = .backup ∧ ∀ e ∈ s.pending, e.2 = .backup) :
    Accounts start (s.work i call stage)
      (turns ++ [⟨i, call, (call.alone.run base).1, call.puts base⟩]) (call.alone.run base).2 := by
  obtain ⟨before, after, hholders⟩ := List.append_of_mem (h.mem_holders hcurrent)
  have hnodup := h.nodup
  rw [hholders] at hnodup
  have hbefore : s.pending = pendingOf s.client before ++ (i, call) :: pendingOf s.client after := by
    rw [pending, hholders, pendingOf_middle, Client.pending_of_going hcurrent hgoing,
      List.append_assoc]
    rfl
  have hafter : (s.work i call stage).pending =
      pendingOf s.client before ++ pendingOf s.client after := by
    rw [pending, lock_work, hholders]
    refine (pendingOf_set hnodup).trans ?_
    rw [hnext, Client.pending_of_ended rfl, Option.map_none, Option.toList_none, List.append_nil]
  -- A call that writes is the only one; a backup may overtake those that took the lock before it.
  have hfirst : Shuffled s.pending ((i, call) :: (s.work i call stage).pending) := by
    rw [hbefore, hafter]
    obtain hone | ⟨rfl, hbackups⟩ := halone
    · have hlength := congrArg List.length (hholders.symm.trans hone)
      rw [List.length_append, List.length_cons, List.length_singleton] at hlength
      obtain rfl : before = [] := List.length_eq_zero_iff.1 (by omega)
      exact .refl _
    · rw [hbefore] at hbackups
      exact .middle (fun e he => hbackups e (List.mem_append_left _ he)) i _
  refine ⟨h.inTurn.snoc i call, ?_, fun j => ?_, h.nodup, fun j => ?_⟩
  · rw [List.map_append, List.append_assoc]
    exact h.order.trans (hfirst.append_left (turns.map Turn.entry))
  · rw [answersTo_concat, h.answers, client_work, hnext]
    by_cases heq : j = i
    · rw [if_pos heq, if_pos heq.symm, heq, Client.outcomes_of_going hcurrent hgoing,
        Client.outcomes_of_ended rfl]
      rfl
    · rw [if_neg heq, if_neg (Ne.symm heq), List.append_nil]
  · rw [lock_work, h.inside, client_work]
    split
    · next heq => simp [heq, hcurrent]
    · rfl

/-- A client whose call is over has been answered. -/
theorem leave (h : Accounts start s turns base)
    (hcurrent : (s.client i).current = some (call, .ended result)) :
    Accounts start (s.leave i call result) turns base := by
  have hmem := h.mem_holders hcurrent
  have hholders : (s.leave i call result).lock.holders = s.lock.holders.erase i :=
    holders_without hmem
  have hpending : (s.leave i call result).pending = s.pending := by
    have hnot := (h.nodup.mem_erase_iff (a := i) (b := i)).not.2 fun hne => hne.1 rfl
    rw [pending, hholders]
    refine (pendingOf_others hnot).trans ?_
    obtain ⟨before, after, hbefore, hsplit, herase⟩ := List.exists_erase_eq hmem
    rw [herase, pending, hsplit, pendingOf_middle, Client.pending_of_ended hcurrent,
      Option.map_none, Option.toList_none, List.append_nil, pendingOf, List.filterMap_append]
    rfl
  refine ⟨h.inTurn, ?_, fun j => ?_, ?_, fun j => ?_⟩
  · rw [hpending]
    exact h.order
  · rw [h.answers, client_leave]
    split
    · next heq => rw [heq, Client.outcomes_of_ended hcurrent, Client.outcomes_of_idle rfl]
    · rfl
  · rw [hholders]
    exact h.nodup.erase i
  · rw [hholders, h.nodup.mem_erase_iff, h.inside, client_leave]
    by_cases heq : j = i
    · simp [heq]
    · simp [heq]

end Accounts

end Clients

end ShortLinks.Memory
