import ShortLinks.Proofs.Clients.Calls

/-!
# Calls one after another

Calls take turns: each runs alone on what the one before has left. The links are then those of the
start with the records that the calls put in, and none of these adds a link that was there before.
As long as the new file of every backup could be opened, the journal keeps up with the links.

The order of backups that no other call stands between does not matter, but for which of them fail.
-/

namespace ShortLinks.Memory

open FileSystem

/-- A call that has taken its turn: how it ended and which records it put into the links. -/
structure Turn where
  client : Nat
  call : Call
  result : Except Fault Unit
  records : List Record

namespace Turn

/-- The call and who made it. -/
def entry (t : Turn) : Nat × Call := (t.client, t.call)

/-- The call and how it ended. -/
def outcome (t : Turn) : Call × Except Fault Unit := (t.call, t.result)

/-- The call and what came of it, whoever made it. -/
def done (t : Turn) : Call × Except Fault Unit × List Record := (t.call, t.result, t.records)

/-- The records of the links that the call added. -/
def added (t : Turn) : List Record := t.records.filter fun r => !r.deleted

/-- The call is a backup that could not open the new file in the place of the journal. -/
def Unopened (path : String) (t : Turn) : Prop :=
  t.call = .backup ∧ ∃ f, t.result = .error f ∧ Journal.Unopened path f

end Turn

/-- Calls one after another, each on what the one before has left. -/
inductive InTurn (start : Setting Memory) : List Turn → Setting Memory → Prop
  | nil : InTurn start [] start
  | snoc {turns : List Turn} {base : Setting Memory} (h : InTurn start turns base) (client : Nat)
      (call : Call) : InTurn start
        (turns ++ [⟨client, call, (call.alone.run base).1, call.puts base⟩]) (call.alone.run base).2

/-- What clients were told, each about its own calls. -/
def answersTo (turns : List Turn) (i : Nat) : List (Call × Except Fault Unit) :=
  (turns.filter fun t => t.client = i).map Turn.outcome

/-- The last turn answers its own client. -/
theorem answersTo_concat (turns : List Turn) (t : Turn) (i : Nat) :
    answersTo (turns ++ [t]) i = answersTo turns i ++ if t.client = i then [t.outcome] else [] := by
  rw [answersTo, List.filter_append, List.map_append, answersTo]
  by_cases hclient : t.client = i <;> simp [hclient]

/-- The journal of a store is open for appending and gives its links, and the path through which it
is written anew is not another name of its file. -/
structure Kept (path : String) (file : FileId) (s : Setting Memory) : Prop where
  durable : Durable path s.store s.files file
  keeping : Keeping path file (s.files.bytes file) s.files

/-- The file at the path gives the links of a store when its lines are replayed. -/
def Replays (path : String) (s : Setting Memory) : Prop :=
  ∃ file, s.files.Stands path file ∧ (Journal.read (s.files.bytes file)).complete ∧
    (linksIn s.files file).Agree s.store.owners

variable {start base : Setting Memory} {turns : List Turn} {path : String} {file : FileId}

/-- A journal that is kept replays to what it was kept for. -/
theorem Kept.replays (h : Kept path file base) : Replays path base :=
  ⟨file, h.durable.stands, h.durable.complete,
    h.durable.links.agree (populated_linksIn _ _) h.durable.populated⟩

/-- A call keeps the journal, unless it is a backup that could not open its new file. -/
theorem Kept.alone (h : Kept path file base) (call : Call)
    (hopened : ∀ f, call = .backup → (call.alone.run base).1 = .error f →
      ¬Journal.Unopened path f) :
    ∃ file', Kept path file' (call.alone.run base).2 := by
  by_cases hcall : call.isReading
  · obtain rfl := Call.eq_backup hcall
    obtain ⟨m, fs⟩ := base
    change ∃ file', Kept path file' (backup.run ⟨m, fs⟩).2
    rcases hbackup : backup.run ⟨m, fs⟩ with ⟨f | _, m', fs'⟩
    · obtain ⟨rfl, ⟨-, hkeeping⟩ | ⟨e, new, hf, -⟩⟩ :=
        backup_failed h.durable.journal h.keeping hbackup
      · have hnothing : Keeping path file
            (fs.bytes file ++ ([] : List Record).flatMap Journal.lineBytes) fs' := by
          rw [List.flatMap_nil, List.append_nil]
          exact hkeeping
        exact ⟨file, h.durable.of_keeping rfl rfl hnothing, hkeeping.stands, hkeeping.made,
          hkeeping.apart, rfl⟩
      · exact absurd ⟨e, hf⟩ (hopened f rfl (congrArg Prod.fst hbackup))
    · obtain ⟨-, file', hdurable⟩ := h.durable.backup hbackup
      obtain ⟨new, hkeeping⟩ := keeping_backup h.durable.journal hbackup
      obtain rfl := hdurable.stands.unique hkeeping.stands
      exact ⟨file', hdurable, hkeeping.stands, hkeeping.made, hkeeping.apart, rfl⟩
  · have hwrote := Call.wrote_alone hcall h.durable.journal
    have hkeeping := hwrote.keeping h.keeping
    exact ⟨file, h.durable.of_keeping hwrote.journal hwrote.owners hkeeping, hkeeping.stands,
      hkeeping.made, hkeeping.apart, rfl⟩

namespace InTurn

/-- The journal is kept by calls none of which is a backup that could not open its new file. -/
theorem kept (h : InTurn start turns base) (hkept : Kept path file start)
    (hopened : ∀ t ∈ turns, ¬t.Unopened path) : ∃ file', Kept path file' base := by
  induction h with
  | nil => exact ⟨file, hkept⟩
  | @snoc turns base _ client call ih =>
    obtain ⟨file', hkept'⟩ := ih fun t ht => hopened t (List.mem_append_left _ ht)
    have hlast := hopened _ (List.mem_append_right _ (List.mem_singleton_self _))
    exact hkept'.alone call fun f hbackup hresult hunopened =>
      hlast ⟨hbackup, f, hresult, hunopened⟩

/-- The links at the end are those at the start, with what the calls put in. -/
theorem owners (h : InTurn start turns base) :
    base.store.owners = start.store.owners.replay (turns.flatMap Turn.records) := by
  induction h with
  | nil => rfl
  | @snoc turns base _ client call ih =>
    rw [Call.owners_alone, ih, List.flatMap_append, Owners.replay_append]
    simp

/-- Each call ran alone on what was there at its turn. -/
theorem mem (h : InTurn start turns base) {t : Turn} (ht : t ∈ turns) :
    ∃ s, t.result = (t.call.alone.run s).1 ∧ t.records = t.call.puts s := by
  induction h with
  | nil => cases ht
  | @snoc turns base _ client call ih =>
    obtain hearlier | hlast := List.mem_append.1 ht
    · exact ih hearlier
    · rw [List.mem_singleton.1 hlast]
      exact ⟨base, rfl, rfl⟩

/-- Backups put nothing into the links. -/
theorem records_backup (h : InTurn start turns base) {t : Turn} (ht : t ∈ turns)
    (hbackup : t.call = .backup) : t.records = [] := by
  obtain ⟨s, -, hrecords⟩ := h.mem ht
  rw [hrecords, hbackup, Call.puts, Call.writes_backup]
  rfl

/-- A call that is accepted has added all that it was to add. -/
theorem added_of_ok (h : InTurn start turns base) {t : Turn} (ht : t ∈ turns)
    (hok : t.result = .ok ()) : t.added = t.call.additions := by
  obtain ⟨s, hresult, hrecords⟩ := h.mem ht
  rw [Turn.added, hrecords]
  exact Call.puts_of_ok (hresult.symm.trans hok)

/-- The links that calls add are all different, and none of them was there at the start. -/
theorem added_once (h : InTurn start turns base) :
    ((turns.flatMap Turn.added).map Owners.key).Nodup ∧
      ∀ r ∈ turns.flatMap Turn.added, start.store.owners.link? r.owner r.code = none := by
  induction h with
  | nil => exact ⟨List.nodup_nil, nofun⟩
  | @snoc turns base h client call ih =>
    obtain ⟨hearlier, habsent⟩ := ih
    obtain ⟨hlast, hfree⟩ := call.puts_free base
    rw [List.flatMap_append, List.flatMap_singleton]
    constructor
    · rw [List.map_append, List.nodup_append]
      refine ⟨hearlier, hlast, fun k hk k' hk' => ?_⟩
      obtain ⟨r, hr, rfl⟩ := List.mem_map.1 hk
      obtain ⟨r', hr', rfl⟩ := List.mem_map.1 hk'
      intro hsame
      obtain ⟨howner, hcode⟩ := Prod.mk.inj hsame
      -- What an earlier turn put in is still there, if only as a tombstone, so it is not free now.
      have hmem : r ∈ turns.flatMap Turn.records := by
        obtain ⟨t, ht, hadded⟩ := List.mem_flatMap.1 hr
        exact List.mem_flatMap.2 ⟨t, ht, (List.mem_filter.1 hadded).1⟩
      have hthere := Owners.isSome_link?_of_mem (o := start.store.owners) hmem
      rw [← h.owners, howner, hcode, hfree r' hr'] at hthere
      cases hthere
    · intro r hr
      obtain hr | hr := List.mem_append.1 hr
      · exact habsent r hr
      · have hnone := hfree r hr
        rw [h.owners] at hnone
        cases hlink : start.store.owners.link? r.owner r.code with
        | none => rfl
        | some link =>
          have hsome := Owners.isSome_link?_replay (o := start.store.owners) (by rw [hlink]; rfl)
            (turns.flatMap Turn.records)
          rw [hnone] at hsome
          cases hsome

/-- Who makes the calls does not matter to what comes of them. -/
theorem relabel (h : InTurn start turns base) {turns' : List Turn}
    (hdone : turns'.map Turn.done = turns.map Turn.done) : InTurn start turns' base := by
  induction h generalizing turns' with
  | nil =>
    rw [List.map_eq_nil_iff.1 hdone]
    exact .nil
  | @snoc turns base _ client call ih =>
    rw [List.map_append] at hdone
    obtain ⟨earlier, last, rfl, hearlier, hlast⟩ := List.map_eq_append_iff.1 hdone
    obtain ⟨t, rfl, ht⟩ := List.map_eq_singleton_iff.1 hlast
    obtain ⟨client', call', result, records⟩ := t
    cases ht
    exact (ih hearlier).snoc client' call

end InTurn

/-- The same calls in the same order, but backups next to each other may have changed places. -/
inductive Shuffled : List (Nat × Call) → List (Nat × Call) → Prop
  | nil : Shuffled [] []
  | cons (e : Nat × Call) {l l' : List (Nat × Call)} (h : Shuffled l l') :
      Shuffled (e :: l) (e :: l')
  | swap (i j : Nat) (l : List (Nat × Call)) :
      Shuffled ((i, .backup) :: (j, .backup) :: l) ((j, .backup) :: (i, .backup) :: l)
  | trans {l l' l'' : List (Nat × Call)} (h : Shuffled l l') (h' : Shuffled l' l'') :
      Shuffled l l''

namespace Shuffled

variable {l l' : List (Nat × Call)}

/-- Calls in their own order are a shuffling of themselves. -/
theorem refl (l : List (Nat × Call)) : Shuffled l l := by
  induction l with
  | nil => exact .nil
  | cons e _ ih => exact .cons e ih

/-- A shuffling goes on when the same calls come behind it. -/
theorem append_right (h : Shuffled l l') (k : List (Nat × Call)) :
    Shuffled (l ++ k) (l' ++ k) := by
  induction h with
  | nil => exact refl k
  | cons e _ ih => exact .cons e ih
  | swap i j l => exact .swap i j (l ++ k)
  | trans _ _ ih ih' => exact ih.trans ih'

/-- A shuffling goes on when the same calls stand in front of it. -/
theorem append_left (h : Shuffled l l') (k : List (Nat × Call)) :
    Shuffled (k ++ l) (k ++ l') := by
  induction k with
  | nil => exact h
  | cons e _ ih => exact .cons e ih

/-- A backup may go before other backups. -/
theorem middle {before : List (Nat × Call)} (hbefore : ∀ e ∈ before, e.2 = .backup) (i : Nat)
    (after : List (Nat × Call)) :
    Shuffled (before ++ (i, .backup) :: after) ((i, .backup) :: (before ++ after)) := by
  induction before with
  | nil => exact refl _
  | cons e rest ih =>
    obtain ⟨j, call⟩ := e
    obtain rfl : call = .backup := hbefore _ List.mem_cons_self
    have hrest := ih fun e he => hbefore e (List.mem_cons_of_mem _ he)
    exact (hrest.cons (j, .backup)).trans (.swap j i _)

/-- Calls that took their turns may as well have taken them in the first order, if all backups ended
alike: nobody would have been told anything else. -/
theorem exchange (h : Shuffled l l') {turns : List Turn} (hentries : turns.map Turn.entry = l')
    {ending : Except Fault Unit}
    (hbackups : ∀ t ∈ turns, t.call = .backup → t.result = ending ∧ t.records = []) :
    ∃ turns' : List Turn, turns'.map Turn.entry = l ∧ turns'.map Turn.done = turns.map Turn.done ∧
      ∀ i, answersTo turns' i = answersTo turns i := by
  induction h generalizing turns with
  | nil => exact ⟨turns, hentries, rfl, fun _ => rfl⟩
  | cons e _ ih =>
    obtain ⟨t, rest, rfl, rfl, hrest⟩ := List.map_eq_cons_iff.1 hentries
    obtain ⟨rest', hentries', hdone, hanswers⟩ :=
      ih hrest fun t ht => hbackups t (List.mem_cons_of_mem _ ht)
    refine ⟨t :: rest', by rw [List.map_cons, hentries'], by rw [List.map_cons, hdone]; rfl,
      fun i => ?_⟩
    have hrest := hanswers i
    simp only [answersTo, List.filter_cons] at hrest ⊢
    split
    · rw [List.map_cons, hrest, List.map_cons]
    · exact hrest
  | swap i j l =>
    obtain ⟨first, _, rfl, hfirst, hrest⟩ := List.map_eq_cons_iff.1 hentries
    obtain ⟨second, rest, rfl, hsecond, rfl⟩ := List.map_eq_cons_iff.1 hrest
    have hcalls : first.call = .backup ∧ second.call = .backup :=
      ⟨congrArg Prod.snd hfirst, congrArg Prod.snd hsecond⟩
    obtain ⟨hresult, hrecords⟩ := hbackups first List.mem_cons_self hcalls.1
    obtain ⟨hresult', hrecords'⟩ :=
      hbackups second (List.mem_cons_of_mem _ List.mem_cons_self) hcalls.2
    refine ⟨second :: first :: rest, ?_, ?_, fun k => ?_⟩
    · rw [List.map_cons, List.map_cons, hfirst, hsecond]
    · simp only [List.map_cons, Turn.done, hcalls, hresult, hrecords, hresult', hrecords']
    · by_cases hk : first.client = k <;> by_cases hk' : second.client = k <;>
        simp [answersTo, Turn.outcome, hk, hk', hcalls, hresult, hresult']
  | trans _ _ ih ih' =>
    obtain ⟨turns₁, hentries₁, hdone₁, hanswers₁⟩ := ih' hentries hbackups
    have hbackups₁ : ∀ t ∈ turns₁, t.call = .backup → t.result = ending ∧ t.records = [] := by
      intro t ht hbackup
      have hmem := List.mem_map_of_mem (f := Turn.done) ht
      rw [hdone₁] at hmem
      obtain ⟨t', ht', hsame⟩ := List.mem_map.1 hmem
      obtain ⟨hcall, hresult, hrecords⟩ : t'.call = t.call ∧ t'.result = t.result ∧
        t'.records = t.records := by simpa [Turn.done] using hsame
      rw [← hresult, ← hrecords]
      exact hbackups t' ht' (hcall.trans hbackup)
    obtain ⟨turns₂, hentries₂, hdone₂, hanswers₂⟩ := ih hentries₁ hbackups₁
    exact ⟨turns₂, hentries₂, hdone₂.trans hdone₁, fun i => (hanswers₂ i).trans (hanswers₁ i)⟩

end Shuffled

end ShortLinks.Memory
