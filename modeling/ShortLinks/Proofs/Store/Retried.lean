import ShortLinks.Proofs.Store.OneByOne

/-!
# A batch that is tried again

A call with a batch may fail again and again, each time in another way and going through the batch
in another order. In memory the records that could be written stay, and the next call finds their
codes taken; in a table nothing stays of a batch that failed. Either way a call adds some of the
records that are missing and no others, so what was added and what is missing make up the same
records at every moment. A call that nothing disturbs adds all that are missing. So in the end the
records are those that this call would have added alone, and further calls find none missing.
-/

namespace ShortLinks

open FileSystem

/-- Whatever fails otherwise, records are written alike. -/
theorem Memory.Logged.under {journal : Option Journal} {records : List Record}
    {fs fs' : FileSystem} (h : Logged journal records fs fs') (faults : FaultPlan) :
    Logged journal records { fs with faults } { fs' with faults } := by
  unfold Logged at *
  cases hwriter : journal.bind Journal.writer with
  | none =>
    rw [hwriter] at h
    rw [h]
  | some file =>
    rw [hwriter] at h
    exact ⟨h.names, rfl, h.here, h.elsewhere, h.made⟩

/-- Writing records leaves the fault plan. -/
theorem Memory.Logged.faults {journal : Option Journal} {records : List Record}
    {fs fs' : FileSystem} (h : Logged journal records fs fs') : fs'.faults = fs.faults := by
  unfold Logged at h
  cases hwriter : journal.bind Journal.writer with
  | none =>
    rw [hwriter] at h
    rw [h]
  | some file =>
    rw [hwriter] at h
    exact Grew.faults h

namespace Store

variable {s s' t : Setting Store} {owner code url : String} {r : Record}
  {records records' : List Record} {urls batch : Keyed String String}

/-- What can go wrong on its own with a call: operations on files if the store is in memory, and
otherwise what keeps a table from being changed and which steps of a batch fail. -/
structure Circumstances where
  onFiles : FaultPlan := noFaults
  patience : Nat := 60000
  readOnly : Bool := false
  inBatch : SqlFaults := .none
  poisoned : List String := []
  locked : Bool := false

namespace Circumstances

/-- A relational store under circumstances. -/
def around (c : Circumstances) (r : Relational) : Relational :=
  { r with patience := c.patience, readOnly := c.readOnly, faults := c.inBatch }

/-- A table under circumstances. -/
def upon (c : Circumstances) (t : Table) : Table :=
  { t with poisoned := c.poisoned, locked := c.locked }

/-- A store under circumstances. -/
def under (c : Circumstances) (s : Setting Store) : Setting Store :=
  match s.store with
  | .memory m => ⟨.memory m, { s.files with faults := c.onFiles }⟩
  | .relational r => ⟨.relational (c.around r),
      s.files.setContent r.file (.database (c.upon (r.table s.files)))⟩

end Circumstances

/-- A call with a batch: the order in which it goes through the batch, and what goes wrong. -/
structure Attempt where
  urls : Keyed String String
  circumstances : Circumstances

/-- How an attempt ends, and what it leaves. -/
def Attempt.run (a : Attempt) (owner : String) (s : Setting Store) :
    Except Fault Unit × Setting Store :=
  (storage.addBatch a.urls owner).run (a.circumstances.under s)

/-- What attempts leave that are made one after another. -/
def attempt (owner : String) (s : Setting Store) (attempts : List Attempt) : Setting Store :=
  attempts.foldl (fun s a => (a.run owner s).2) s

variable {c c' : Circumstances} {a : Attempt} {attempts : List Attempt}

/-- Under some circumstances the table is what they make of it. -/
theorem table_under (c : Circumstances) (r : Relational) (fs : FileSystem) :
    (c.around r).table (c.under ⟨.relational r, fs⟩).files = c.upon (r.table fs) :=
  Relational.table_setContent r fs _

/-- What is vacant is vacant under any circumstances. -/
theorem vacant_under : Vacant (c.under s) owner code url ↔ Vacant s owner code url := by
  obtain ⟨m | r, fs⟩ := s
  · rfl
  · change Table.Vacant ((c.around r).table (c.under ⟨.relational r, fs⟩).files).rows code url ↔ _
    rw [table_under]
    rfl

/-- What is added under some circumstances is added under any. -/
theorem Added.under (h : Added records s s') (c : Circumstances) :
    Added records (c.under s) (c.under s') := by
  obtain ⟨m | r, fs⟩ := s <;> obtain ⟨m' | r', fs'⟩ := s' <;> try contradiction
  · obtain ⟨rfl, hlogged⟩ := h
    exact ⟨rfl, hlogged.under c.onFiles⟩
  · obtain ⟨rfl, htable⟩ := h
    have htable : r'.table fs' =
        { r'.table fs with rows := (r'.table fs).rows ++ records } := htable
    refine ⟨rfl, (table_under c r' fs').trans ?_⟩
    rw [table_under c r' fs, htable]
    rfl

/-- Changing the circumstances adds nothing. -/
theorem added_nil_under (s : Setting Store) (c c' : Circumstances) :
    Added [] (c.under s) (c.under (c'.under s)) := by
  obtain ⟨m | r, fs⟩ := s
  · exact .nil _
  · have htable : (c'.around r).table (c'.under ⟨.relational r, fs⟩).files = c'.upon (r.table fs) :=
      table_under c' r fs
    refine ⟨rfl, ((table_under c (c'.around r) _).trans (congrArg c.upon htable)).trans ?_⟩
    rw [table_under c r fs, List.append_nil]
    rfl

/-- A call leaves the circumstances as they are. -/
theorem Added.settled (h : Added records (c.under s) t) : Added [] t (c.under t) := by
  obtain ⟨m | r, fs⟩ := s <;> obtain ⟨m' | r', fs'⟩ := t <;> try contradiction
  · obtain ⟨rfl, hlogged⟩ := h
    have hfaults : fs'.faults = c.onFiles := hlogged.faults
    have hfiles : { fs' with faults := c.onFiles } = fs' := by rw [← hfaults]
    rw [Circumstances.under, hfiles]
    exact .nil _
  · obtain ⟨rfl, htable⟩ := h
    have htable : (c.around r).table fs' =
        { (c.around r).table (c.under ⟨.relational r, fs⟩).files with
          rows := ((c.around r).table (c.under ⟨.relational r, fs⟩).files).rows ++ records } := htable
    rw [table_under] at htable
    refine ⟨rfl, (table_under c (c.around r) fs').trans ?_⟩
    rw [List.append_nil, htable]
    rfl

/-- Where nothing goes wrong, nothing goes wrong after records were added. -/
theorem Added.sound (h : Added records s s') (hsound : Sound s) : Sound s' := by
  obtain ⟨m | r, fs⟩ := s <;> obtain ⟨m' | r', fs'⟩ := s' <;> try contradiction
  · obtain ⟨rfl, hlogged⟩ := h
    exact fun hjournal => hlogged.faults.trans (hsound hjournal)
  · obtain ⟨rfl, htable⟩ := h
    refine ⟨hsound.patient, hsound.writable, hsound.faultless, ?_, ?_, ?_⟩ <;>
      rw [htable]
    · exact hsound.present
    · exact hsound.unlocked
    · exact hsound.unpoisoned

/-- The links of a batch are missing in any order of the batch, and under any circumstances. -/
theorem missing_under_perm (hperm : urls.entries.Perm batch.entries) :
    Missing urls owner (c.under s) r ↔ Missing batch owner s r := by
  have hfind : urls.find? r.code = some r.url ↔ batch.find? r.code = some r.url := by
    rw [← Keyed.mem_entries_iff, ← Keyed.mem_entries_iff, hperm.mem_iff]
  rw [Missing, hfind, vacant_under, Missing]

/-- A missing record is told by its code. -/
theorem Missing.eq_of_code {r' : Record} (h : Missing batch owner s r)
    (h' : Missing batch owner s' r') (hcode : r.code = r'.code) : r = r' := by
  obtain ⟨howner, hdeleted, hfind, -⟩ := h
  obtain ⟨howner', hdeleted', hfind', -⟩ := h'
  have hurl : r.url = r'.url := by
    rw [hcode, hfind'] at hfind
    exact (Option.some.inj hfind).symm
  obtain ⟨code, url, owner, deleted⟩ := r
  obtain ⟨code', url', owner', deleted'⟩ := r'
  simp only at howner hdeleted howner' hdeleted' hcode hurl
  rw [howner, hdeleted, howner', hdeleted', hcode, hurl]

/-- What was missing is missing still if it was not added. The URLs of the batch are distinct, and
what was added was missing. -/
theorem Added.missing_iff (hurls : (batch.entries.map Prod.snd).Nodup) (h : Added records s t)
    (hrecords : ∀ r ∈ records, Missing batch owner s r) :
    Missing batch owner t r ↔ Missing batch owner s r ∧ r ∉ records := by
  have hvacant (howner : r.owner = owner) (hdeleted : r.deleted = false)
      (hfind : batch.find? r.code = some r.url) :
      Vacant t owner r.code r.url ↔ Vacant s owner r.code r.url ∧ r ∉ records := by
    have hsame : ∀ r' ∈ records, r'.owner = owner ∧ (r'.code = r.code ↔ r'.url = r.url) := by
      intro r' hr'
      obtain ⟨howner', -, hfind', -⟩ := hrecords r' hr'
      refine ⟨howner', fun hcode => ?_, fun hurl => ?_⟩
      · rw [hcode, hfind] at hfind'
        exact (Option.some.inj hfind').symm
      · have hentries := List.inj_on_of_nodup_map hurls ((Keyed.mem_entries_iff batch).2 hfind')
          ((Keyed.mem_entries_iff batch).2 hfind) hurl
        exact congrArg Prod.fst hentries
    rw [h.vacant_iff hsame]
    apply and_congr_right
    intro hbefore
    refine not_congr ⟨fun hcode => ?_, fun hmem => List.mem_map.2 ⟨r, hmem, rfl⟩⟩
    obtain ⟨r', hr', hcode⟩ := List.mem_map.1 hcode
    rwa [← (hrecords r' hr').eq_of_code ⟨howner, hdeleted, hfind, hbefore⟩ hcode]
  constructor
  · rintro ⟨howner, hdeleted, hfind, hlater⟩
    obtain ⟨hbefore, hnew⟩ := (hvacant howner hdeleted hfind).1 hlater
    exact ⟨⟨howner, hdeleted, hfind, hbefore⟩, hnew⟩
  · rintro ⟨⟨howner, hdeleted, hfind, hbefore⟩, hnew⟩
    exact ⟨howner, hdeleted, hfind, (hvacant howner hdeleted hfind).2 ⟨hbefore, hnew⟩⟩

/-- Some of the records that are missing were added. -/
structure Filled (batch : Keyed String String) (owner : String) (records : List Record)
    (s t : Setting Store) : Prop where
  added : Added records s t
  nodup : records.Nodup
  missing : ∀ r ∈ records, Missing batch owner s r

/-- Records that were filled in one after another were filled in together. -/
theorem Filled.trans (hurls : (batch.entries.map Prod.snd).Nodup)
    (h : Filled batch owner records s t) (h' : Filled batch owner records' t s') :
    Filled batch owner (records ++ records') s s' where
  added := h.added.append h'.added
  nodup := by
    refine h.nodup.append h'.nodup fun r hr hr' => ?_
    exact ((h.added.missing_iff hurls h.missing).1 (h'.missing r hr')).2 hr
  missing r hr := by
    obtain hr | hr := List.mem_append.1 hr
    · exact h.missing r hr
    · exact ((h.added.missing_iff hurls h.missing).1 (h'.missing r hr)).1

/-- No two of the records that were added are about the same link. -/
theorem Filled.nodup_keys (h : Filled batch owner records s t) :
    (records.map Owners.key).Nodup := by
  apply h.nodup.map_on
  intro r hr r' hr' hkey
  exact (h.missing r hr).eq_of_code (h.missing r' hr') (Prod.mk.inj hkey).2

/-- All the records that are missing are among some records. -/
def Covers (batch : Keyed String String) (owner : String) (s : Setting Store)
    (records : List Record) : Prop :=
  ∀ r, Missing batch owner s r → r ∈ records

/-- What was added first and all that was missing then are all that was missing at first. -/
theorem Filled.covers_append (hurls : (batch.entries.map Prod.snd).Nodup)
    (h : Filled batch owner records s t) (hall : Covers batch owner t records') :
    Covers batch owner s (records ++ records') := by
  intro r hr
  by_cases hmem : r ∈ records
  · exact List.mem_append_left _ hmem
  · exact List.mem_append_right _ (hall r ((h.added.missing_iff hurls h.missing).2 ⟨hr, hmem⟩))

/-- All the records that are missing are the same records, in some order. -/
theorem Filled.perm (h : Filled batch owner records s t) (hall : Covers batch owner s records)
    (h' : Filled batch owner records' s s') (hall' : Covers batch owner s records') :
    records.Perm records' := by
  rw [List.perm_ext_iff_of_nodup h.nodup h'.nodup]
  intro r
  exact ⟨fun hr => hall' r (h.missing r hr), fun hr => hall r (h'.missing r hr)⟩

/-- Where all that was missing was added, nothing is missing, and nothing can be added. -/
theorem Filled.eq_nil {t' : Setting Store} (hurls : (batch.entries.map Prod.snd).Nodup)
    (h : Filled batch owner records s t) (hall : Covers batch owner s records)
    (hmore : Filled batch owner records' (c.under t) t') : records' = [] := by
  rw [List.eq_nil_iff_forall_not_mem]
  intro r hr
  have hmissing : Missing batch owner t r :=
    (missing_under_perm (.refl _)).1 (hmore.missing r hr)
  obtain ⟨hfirst, hnew⟩ := (h.added.missing_iff hurls h.missing).1 hmissing
  exact hnew (hall r hfirst)

/-- What is filled under some circumstances is filled under any. -/
theorem Filled.under (h : Filled batch owner records s t) (c : Circumstances) :
    Filled batch owner records (c.under s) (c.under t) where
  added := h.added.under c
  nodup := h.nodup
  missing r hr := (missing_under_perm (.refl _)).2 (h.missing r hr)

/-- Where nothing was added, nothing was filled. -/
theorem filled_nil (h : Added [] s t) : Filled batch owner [] s t := ⟨h, List.nodup_nil, nofun⟩

section Attempts

variable (hurls : (batch.entries.map Prod.snd).Nodup)
include hurls

/-- An attempt adds some of the records that are missing, and all of them if nothing disturbs the
store. -/
theorem Attempt.filled (hperm : a.urls.entries.Perm batch.entries) (owner : String)
    (s : Setting Store) :
    ∃ records, Filled batch owner records (a.circumstances.under s) (a.run owner s).2 ∧
      (Undisturbed (a.run owner s).1 → Covers batch owner (a.circumstances.under s) records) := by
  have hurls' : (a.urls.entries.map Prod.snd).Nodup := (hperm.map Prod.snd).nodup_iff.2 hurls
  have hmissing (r : Record) : Missing a.urls owner (a.circumstances.under s) r ↔
      Missing batch owner (a.circumstances.under s) r :=
    (missing_under_perm hperm).trans (missing_under_perm (.refl _)).symm
  obtain ⟨records, hadded, hnodup, hsome, hall⟩ :=
    added_addBatch_part hurls' owner (a.circumstances.under s)
  exact ⟨records, ⟨hadded, hnodup, fun r hr => (hmissing r).1 (hsome r hr)⟩,
    fun h r hr => hall h r ((hmissing r).2 hr)⟩

/-- Attempts with a batch add some of the records that are missing. -/
theorem filled_attempts (hperm : ∀ a ∈ attempts, a.urls.entries.Perm batch.entries)
    (owner : String) (c : Circumstances) (s : Setting Store) :
    ∃ records, Filled batch owner records (c.under s) (c.under (attempt owner s attempts)) := by
  induction attempts generalizing s with
  | nil => exact ⟨[], filled_nil (.nil _)⟩
  | cons a rest ih =>
    obtain ⟨first, hfirst, -⟩ := a.filled hurls (hperm a List.mem_cons_self) owner s
    obtain ⟨later, hlater⟩ := ih (fun b hb => hperm b (List.mem_cons_of_mem _ hb)) (a.run owner s).2
    have hstart : Filled batch owner [] (c.under s) (c.under (a.circumstances.under s)) :=
      filled_nil (added_nil_under s c a.circumstances)
    exact ⟨_, (hstart.trans hurls (hfirst.under c)).trans hurls hlater⟩

/-- A batch is tried again and again, in any order and whatever goes wrong, on a store of either
kind. When a call comes that nothing disturbs, it leaves the same state as it would have left alone,
and the same records were added. Further calls add nothing. Where nothing goes wrong, nothing
disturbs the store. -/
theorem retries_converge (owner : String) (s : Setting Store)
    (hperm : ∀ a ∈ attempts, a.urls.entries.Perm batch.entries) (c : Circumstances)
    {last alone : Keyed String String} (hlast : last.entries.Perm batch.entries)
    (halone : alone.entries.Perm batch.entries) :
    let retried := (Attempt.mk last c).run owner (attempt owner s attempts)
    let once := (Attempt.mk alone c).run owner s
    (Undisturbed retried.1 → Undisturbed once.1 →
      SameState once.2 retried.2 ∧
      (∃ records records', records.Perm records' ∧ Added records (c.under s) once.2 ∧
        Added records' (c.under s) retried.2) ∧
      ∀ later : List Attempt, (∀ a ∈ later, a.urls.entries.Perm batch.entries) →
        Added [] retried.2 (c.under (attempt owner retried.2 later))) ∧
    (Sound (c.under s) → Undisturbed retried.1 ∧ Undisturbed once.1) := by
  intro retried once
  obtain ⟨before, hbefore⟩ := filled_attempts hurls hperm owner c s
  obtain ⟨rest, hrest, hrestAll⟩ :=
    Attempt.filled (a := ⟨last, c⟩) hurls hlast owner (attempt owner s attempts)
  obtain ⟨records, hrecords, hrecordsAll⟩ :=
    Attempt.filled (a := ⟨alone, c⟩) hurls halone owner s
  have htotal : Filled batch owner (before ++ rest) (c.under s) retried.2 :=
    hbefore.trans hurls hrest
  refine ⟨fun hretried honce => ?_, fun hsound => ⟨?_, ?_⟩⟩
  · have hall : Covers batch owner (c.under s) (before ++ rest) :=
      hbefore.covers_append hurls (hrestAll hretried)
    have hsame : records.Perm (before ++ rest) :=
      hrecords.perm (hrecordsAll honce) htotal hall
    refine ⟨hrecords.added.sameState htotal.added hrecords.nodup_keys hsame,
      ⟨records, before ++ rest, hsame, hrecords.added, htotal.added⟩, fun later hlater => ?_⟩
    obtain ⟨more, hmore⟩ := filled_attempts hurls hlater owner c retried.2
    obtain rfl : more = [] := htotal.eq_nil hurls hall hmore
    exact htotal.added.settled.append hmore.added
  · exact undisturbed_addBatch (hbefore.added.sound hsound)
      ((hlast.map Prod.snd).nodup_iff.2 hurls) owner
  · exact undisturbed_addBatch hsound ((halone.map Prod.snd).nodup_iff.2 hurls) owner

end Attempts

/-- A batch of three links. -/
def threeLinks : Keyed String String :=
  .ofList [("a", "http://a.b"), ("b", "http://b.b"), ("c", "http://c.b")]

/-- Two attempts with the batch. In the first only the second record can be written and the third
URL is poisoned. In the second, which goes through the batch from its end, nothing can be written
and the savepoint of the first row cannot be released. -/
def twoAttempts : List Attempt :=
  [⟨threeLinks,
      { onFiles n _ := if n = 1 then none else some .tooLarge, poisoned := ["http://c.b"] }⟩,
    ⟨.ofList [("c", "http://c.b"), ("b", "http://b.b"), ("a", "http://a.b")],
      { onFiles := refuseWrites, inBatch n _ := if n = 3 then some .abandoned else none }⟩]

/-- A store in memory whose journal is open for appending, and one with an empty table. -/
def inMemory : Setting Store := ⟨.memory { journal := some { path := "j", writer := some 0 } }, {}⟩

def inTable : Setting Store := ⟨.relational { file := 0 }, { contents := [.database {}] }⟩

/-- After the two attempts one link is in memory and none is in the table. A call in which nothing
fails leaves the same state in both as it would have left alone. -/
theorem retries_converge_twice :
    Has (attempt "u" inMemory twoAttempts) "u" "b" ⟨"http://b.b", false⟩ ∧
    Vacant (attempt "u" inMemory twoAttempts) "u" "a" "http://a.b" ∧
    Vacant (attempt "u" inTable twoAttempts) "u" "b" "http://b.b" ∧
    SameState ((Attempt.mk threeLinks {}).run "u" inMemory).2
      ((Attempt.mk threeLinks {}).run "u" (attempt "u" inMemory twoAttempts)).2 ∧
    SameState ((Attempt.mk threeLinks {}).run "u" inTable).2
      ((Attempt.mk threeLinks {}).run "u" (attempt "u" inTable twoAttempts)).2 := by
  have hurls : (threeLinks.entries.map Prod.snd).Nodup := by decide
  have hperm : ∀ a ∈ twoAttempts, a.urls.entries.Perm threeLinks.entries := by decide
  have hsame (s : Setting Store) (hsound : Sound (Circumstances.under {} s)) :
      SameState ((Attempt.mk threeLinks {}).run "u" s).2
        ((Attempt.mk threeLinks {}).run "u" (attempt "u" s twoAttempts)).2 := by
    obtain ⟨hconverge, hundisturbed⟩ :=
      retries_converge hurls "u" s hperm {} (.refl _) (.refl _)
    obtain ⟨hretried, honce⟩ := hundisturbed hsound
    exact (hconverge hretried honce).1
  have hmemory : Sound (Circumstances.under {} inMemory) := fun _ => rfl
  have htable : Sound (Circumstances.under {} inTable) := ⟨nofun, rfl, rfl, rfl, rfl, rfl⟩
  refine ⟨?_, ?_, ?_, ?_, ?_⟩
  · decide +kernel
  · decide +kernel
  · decide +kernel
  -- The stores are forgotten here, so that nothing is run to see what the statement unfolds to.
  · generalize inMemory = s at hmemory ⊢
    exact hsame s hmemory
  · generalize inTable = s at htable ⊢
    exact hsame s htable

end Store

end ShortLinks
