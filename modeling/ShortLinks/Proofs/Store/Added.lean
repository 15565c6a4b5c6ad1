import ShortLinks.Proofs.Store.Either
import ShortLinks.Proofs.Store.Written

/-!
# What is added to a store

A call that adds links puts records into the store, behind those that are there, and writes them to
the journal where there is one to write; nothing else changes. One link is one record where it is
vacant and none where it is not. A batch is one record for each of its links that is vacant. The
same records in another order make the same state: the same links of the same owners, or the same
rows.
-/

namespace ShortLinks

open FileSystem

/-- A call succeeded, or it found something taken. -/
def Undisturbed {α : Type} (result : Except Fault α) : Prop :=
  ∀ f, result = .error f → f.kind = .conflict

namespace Owners

variable {o : Owners} {records records' : List Record}

/-- Replaying records no two of which are about the same link gives the same map in any order. -/
theorem agree_replay_of_perm (hkeys : (records.map key).Nodup) (hperm : records.Perm records') :
    (o.replay records).Agree (o.replay records') where
  owners name := by
    rw [Bool.eq_iff_iff, contains_replay, contains_replay]
    apply or_congr_right
    exact exists_congr fun r => and_congr_left fun _ => hperm.mem_iff
  links owner code := by
    have hkeys' : (records'.map key).Nodup := (hperm.map key).nodup_iff.1 hkeys
    by_cases hmem : (owner, code) ∈ records.map key
    · obtain ⟨r, hr, hkey⟩ := List.mem_map.1 hmem
      cases hkey
      rw [link?_replay_of_mem hkeys hr, link?_replay_of_mem hkeys' (hperm.mem_iff.1 hr)]
    · rw [link?_replay_of_not_mem hmem, link?_replay_of_not_mem]
      rwa [← (hperm.map key).mem_iff]

end Owners

namespace Memory

variable {m : Memory} {fs fs' fs'' : FileSystem} {journal : Option Journal} {r : Record}
  {records first second : List Record}

/-- Records were written to a journal that is written at each change; to any other nothing was. -/
def Logged (journal : Option Journal) (records : List Record) (fs fs' : FileSystem) : Prop :=
  match journal.bind Journal.writer with
  | none => fs' = fs
  | some file => Grew file (records.flatMap Journal.lineBytes) fs fs'

/-- Where nothing happens, no record is written. -/
theorem Logged.nil (journal : Option Journal) (fs : FileSystem) : Logged journal [] fs fs := by
  unfold Logged
  cases journal.bind Journal.writer with
  | none => rfl
  | some file => exact Grew.refl file fs

/-- Records that are written one after another are written together. -/
theorem Logged.append (h : Logged journal first fs fs') (h' : Logged journal second fs' fs'') :
    Logged journal (first ++ second) fs fs'' := by
  unfold Logged at *
  cases hwriter : journal.bind Journal.writer with
  | none =>
    rw [hwriter] at h h'
    exact h'.trans h
  | some file =>
    rw [hwriter] at h h'
    rw [List.flatMap_append]
    exact h.trans h'

/-- A record that was logged was written, and one that failed to be logged was not. -/
theorem logged_outcome {result : Except Fault Unit} (h : (m.log r).run fs = (result, fs')) :
    Logged m.journal (written [(r, result)]) fs fs' := by
  rw [log] at h
  unfold Logged
  cases hjournal : m.journal with
  | none =>
    rw [hjournal] at h
    cases h
    rfl
  | some journal =>
    have happend : (journal.append r).run fs = (result, fs') := by
      rw [hjournal] at h
      exact h
    rw [Option.bind_some]
    cases hwriter : journal.writer with
    | none =>
      rw [Journal.append, hwriter] at happend
      cases happend
      rfl
    | some file =>
      have hends : (∃ fs₁, (journal.append r).run fs = (.ok (), fs₁) ∧
          Grew file (Journal.lineBytes r) fs fs₁) ∨ _ := journal.run_append r hwriter
      obtain ⟨fs₁, hrun, hgrew⟩ | ⟨-, f, hrun⟩ := hends
      · cases hrun.symm.trans happend
        simpa [written, Except.isOk, Except.toBool] using hgrew
      · cases hrun.symm.trans happend
        exact Grew.of_tick file fs

/-- A record that could be logged was written. -/
theorem logged_log (h : (m.log r).run fs = (.ok (), fs')) : Logged m.journal [r] fs fs' := by
  have hwritten : written [(r, .ok ())] = [r] := rfl
  rw [← hwritten]
  exact logged_outcome h

/-- Of the records that were to be logged, those that could be were written. -/
theorem logged_logAll (m : Memory) (records : List Record) (fs : FileSystem) :
    Logged m.journal (written ((m.logAll records).run fs).1) fs ((m.logAll records).run fs).2 := by
  induction records generalizing fs with
  | nil => exact .nil m.journal fs
  | cons r rest ih =>
    rcases hlog : (m.log r).run fs with ⟨result, fs₁⟩
    have hwritten : written ((r, result) :: ((m.logAll rest).run fs₁).1) =
        written [(r, result)] ++ written ((m.logAll rest).run fs₁).1 := by
      rw [written, ← List.singleton_append, List.filterMap_append]
      rfl
    rw [run_logAll_cons rest hlog, hwritten]
    exact (logged_outcome hlog).append (ih fs₁)

end Memory

namespace Table

variable {rows : List Record} {owner : String} {entries : List (String × String)}

/-- Inserted rows stand behind those that were there, each once. -/
theorem insertAll_eq_append (owner : String) (rows : List Record)
    (entries : List (String × String)) : ∃ added, insertAll owner rows entries = rows ++ added ∧
      added.Nodup ∧ ∀ row ∈ added, row ∉ rows := by
  induction entries generalizing rows with
  | nil => exact ⟨[], (List.append_nil rows).symm, List.nodup_nil, nofun⟩
  | cons entry rest ih =>
    obtain ⟨code, url⟩ := entry
    rw [insertAll, List.foldl_cons, ← insertAll, insertVacant]
    cases htaken : hasCode rows code || hasUrl rows url with
    | true => exact ih rows
    | false =>
      have hvacant : Vacant rows code url := taken_eq_false_iff.1 htaken
      obtain ⟨added, hrows, hnodup, hnew⟩ := ih (rows ++ [⟨code, url, owner, false⟩])
      refine ⟨⟨code, url, owner, false⟩ :: added, hrows.trans (List.append_assoc _ _ _), ?_, ?_⟩
      · rw [List.nodup_cons]
        exact ⟨fun hmem => hnew _ hmem (by simp), hnodup⟩
      · intro row hmem hrow
        obtain rfl | hlater := List.mem_cons.1 hmem
        · exact (hvacant _ hrow).1 rfl
        · exact hnew row hlater (List.mem_append_left _ hrow)

/-- Rows without common codes or URLs are inserted exactly where they are vacant. -/
theorem exists_added (owner : String) (rows : List Record)
    (hcodes : (entries.map Prod.fst).Nodup) (hurls : (entries.map Prod.snd).Nodup) :
    ∃ added, insertAll owner rows entries = rows ++ added ∧ added.Nodup ∧
      ∀ row, row ∈ added ↔ row.owner = owner ∧ row.deleted = false ∧
        (row.code, row.url) ∈ entries ∧ Vacant rows row.code row.url := by
  obtain ⟨added, hrows, hnodup, hnew⟩ := insertAll_eq_append owner rows entries
  refine ⟨added, hrows, hnodup, fun row => ?_⟩
  have hmem : row ∈ rows ++ added ↔ _ := hrows ▸ mem_insertAll hcodes hurls
  rw [List.mem_append] at hmem
  constructor
  · exact fun hrow => (hmem.1 (.inr hrow)).resolve_left (hnew row hrow)
  · rintro ⟨howner, hdeleted, hentry, hvacant⟩
    refine (hmem.2 (.inr ⟨howner, hdeleted, hentry, hvacant⟩)).resolve_left fun hold => ?_
    exact (hvacant row hold).1 rfl

end Table

namespace Store

variable {s s' s'' : Setting Store} {owner code url c u : String} {r : Record}
  {records records' first second : List Record} {urls : Keyed String String}

/-- Records were added behind those of a store and written to its journal, and nothing else
changed. -/
def Added (records : List Record) (s s' : Setting Store) : Prop :=
  match s.store, s'.store with
  | .memory m, .memory m' => m' = { m with owners := m.owners.replay records } ∧
    Memory.Logged m.journal records s.files s'.files
  | .relational r, .relational r' => r' = r ∧ r.table s'.files =
    { r.table s.files with rows := (r.table s.files).rows ++ records }
  | _, _ => False

/-- Two stores have the same links of the same owners, or the same rows in some order, and nothing
else but the content of a journal differs. -/
def SameState (s s' : Setting Store) : Prop :=
  match s.store, s'.store with
  | .memory m, .memory m' => m'.journal = m.journal ∧ m.owners.Agree m'.owners
  | .relational r, .relational r' => r' = r ∧ ∃ rows, (r.table s.files).rows.Perm rows ∧
    r.table s'.files = { r.table s.files with rows }
  | _, _ => False

/-- Where nothing happens, no record is added. -/
theorem Added.nil (s : Setting Store) : Added [] s s := by
  obtain ⟨m | r, fs⟩ := s
  · exact ⟨rfl, .nil m.journal fs⟩
  · refine ⟨rfl, ?_⟩
    rw [List.append_nil]

/-- Records that are added one after another are added together. -/
theorem Added.append (h : Added first s s') (h' : Added second s' s'') :
    Added (first ++ second) s s'' := by
  obtain ⟨m | r, fs⟩ := s <;> obtain ⟨m' | r', fs'⟩ := s' <;> obtain ⟨m'' | r'', fs''⟩ := s'' <;>
    try contradiction
  · obtain ⟨rfl, hlogged⟩ := h
    obtain ⟨rfl, hlogged'⟩ := h'
    refine ⟨?_, hlogged.append hlogged'⟩
    rw [Owners.replay_append]
  · obtain ⟨rfl, htable⟩ := h
    obtain ⟨rfl, htable'⟩ := h'
    refine ⟨rfl, ?_⟩
    rw [htable', htable, List.append_assoc]

/-- The same records in another order make the same state. -/
theorem Added.sameState (h : Added records s s') (h' : Added records' s s'')
    (hkeys : (records.map Owners.key).Nodup) (hperm : records.Perm records') :
    SameState s' s'' := by
  obtain ⟨m | r, fs⟩ := s <;> obtain ⟨m' | r', fs'⟩ := s' <;> obtain ⟨m'' | r'', fs''⟩ := s'' <;>
    try contradiction
  · obtain ⟨rfl, -⟩ := h
    obtain ⟨rfl, -⟩ := h'
    exact ⟨rfl, Owners.agree_replay_of_perm hkeys hperm⟩
  · obtain ⟨rfl, htable⟩ := h
    obtain ⟨rfl, htable'⟩ := h'
    refine ⟨rfl, (r''.table fs).rows ++ records', ?_, ?_⟩
    · rw [htable]
      exact hperm.append_left _
    · rw [htable', htable]

/-- What was vacant is vacant still if no record under its code was added. The records that were
added are of the owner, and none has the code or the URL without the other. -/
theorem Added.vacant_iff (h : Added records s s')
    (hrecords : ∀ r ∈ records, r.owner = owner ∧ (r.code = c ↔ r.url = u)) :
    Vacant s' owner c u ↔ Vacant s owner c u ∧ c ∉ records.map Record.code := by
  obtain ⟨m | r, fs⟩ := s <;> obtain ⟨m' | r', fs'⟩ := s' <;> try contradiction
  · obtain ⟨rfl, -⟩ := h
    change (m.owners.replay records).link? owner c = none ↔ m.owners.link? owner c = none ∧ _
    constructor
    · intro hvacant
      refine ⟨?_, fun hmem => ?_⟩
      · rw [← Option.not_isSome_iff_eq_none] at hvacant ⊢
        exact fun hsome => hvacant (Owners.isSome_link?_replay hsome records)
      · obtain ⟨r, hr, rfl⟩ := List.mem_map.1 hmem
        have hsome := Owners.isSome_link?_of_mem (o := m.owners) hr
        rw [(hrecords r hr).1, hvacant] at hsome
        cases hsome
    · rintro ⟨hvacant, hnew⟩
      rw [Owners.link?_replay_of_not_mem]
      · exact hvacant
      · intro hmem
        obtain ⟨r, hr, hkey⟩ := List.mem_map.1 hmem
        exact hnew (List.mem_map.2 ⟨r, hr, (Prod.mk.inj hkey).2⟩)
  · obtain ⟨rfl, htable⟩ := h
    simp only [Vacant, htable, Table.Vacant, List.forall_mem_append, List.mem_map]
    apply and_congr_right
    intro _
    constructor
    · rintro hfree ⟨r, hr, hcode⟩
      exact (hfree r hr).1 hcode
    · exact fun hnew r hr => ⟨fun hcode => hnew ⟨r, hr, hcode⟩,
        fun hurl => hnew ⟨r, hr, (hrecords r hr).2.2 hurl⟩⟩

/-- Where nothing was added, what was vacant is vacant. -/
theorem Added.vacant_nil (h : Added [] s s') : Vacant s' owner c u ↔ Vacant s owner c u := by
  rw [h.vacant_iff nofun, List.map_nil, and_iff_left List.not_mem_nil]

/-- A link that was added is not vacant any more. -/
theorem Added.not_vacant (h : Added [⟨code, url, owner, false⟩] s s') :
    ¬Vacant s' owner code url := by
  rw [h.vacant_iff (by simp)]
  exact fun hvacant => hvacant.2 List.mem_cons_self

/-- Links with another code and another URL are vacant as before. -/
theorem Added.vacant_other (h : Added [⟨code, url, owner, false⟩] s s') (hcode : code ≠ c)
    (hurl : url ≠ u) : Vacant s' owner c u ↔ Vacant s owner c u := by
  rw [h.vacant_iff (by simp [hcode, hurl]), List.map_singleton, List.mem_singleton,
    and_iff_left hcode.symm]

/-- Adding a link adds its record where it is vacant, and nothing where it is not. -/
theorem added_add (h : Undisturbed ((storage.add code url owner).run s).1) :
    let ended := (storage.add code url owner).run s
    Vacant s owner code url ∧ Added [⟨code, url, owner, false⟩] s ended.2 ∨
      ¬Vacant s owner code url ∧ Added [] s ended.2 := by
  obtain ⟨m | r, fs⟩ := s
  · simp only [storage, Memory.storage, run_delegate_memory, Memory.run_add] at h ⊢
    split
    · next htaken =>
      refine .inr ⟨fun hvacant => ?_, .nil ⟨.memory m, fs⟩⟩
      exact Option.isSome_iff_ne_none.1 htaken hvacant
    · next hfree =>
      rw [if_neg hfree] at h
      rcases hlog : (m.log ⟨code, url, owner, false⟩).run fs with ⟨f | _, fs'⟩
      · rw [hlog] at h
        have hkind : f.kind = .conflict := h f rfl
        rw [Memory.kind_of_run_log hlog] at hkind
        cases hkind
      · exact .inl ⟨Option.not_isSome_iff_eq_none.1 hfree, rfl, Memory.logged_log hlog⟩
  · obtain ⟨result, fs', hrun, hcases⟩ := Relational.add_cases r fs code url owner
    simp only [storage, Relational.storage, run_delegate_relational, hrun] at h ⊢
    obtain ⟨-, hvacant, -, htable⟩ | ⟨f, hf, htable, hconflict, -⟩ := hcases
    · exact .inl ⟨hvacant, rfl, htable⟩
    · obtain ⟨htaken, -⟩ := hconflict (h f hf)
      refine .inr ⟨htaken, rfl, ?_⟩
      rw [htable, List.append_nil]

/-- A record of a link of a batch that is vacant. -/
def Missing (urls : Keyed String String) (owner : String) (s : Setting Store) (r : Record) : Prop :=
  r.owner = owner ∧ r.deleted = false ∧ urls.find? r.code = some r.url ∧
    Vacant s owner r.code r.url

/-- However a batch ends, some of its links that were vacant were added, each as one record. All of
them were if the store was not disturbed. -/
theorem added_addBatch_part (hurls : (urls.entries.map Prod.snd).Nodup) (owner : String)
    (s : Setting Store) :
    let ended := (storage.addBatch urls owner).run s
    ∃ records, Added records s ended.2 ∧ records.Nodup ∧ (∀ r ∈ records, Missing urls owner s r) ∧
      (Undisturbed ended.1 → ∀ r, Missing urls owner s r → r ∈ records) := by
  obtain ⟨m | r, fs⟩ := s
  · simp only [storage, Memory.storage, run_delegate_memory, Memory.run_addBatch]
    have hsublist : (Memory.written ((m.logAll (m.fresh urls owner)).run fs).1).Sublist
        (m.fresh urls owner) := by
      have hwritten := Memory.written_sublist ((m.logAll (m.fresh urls owner)).run fs).1
      rwa [Memory.map_fst_logAll] at hwritten
    refine ⟨_, ⟨rfl, Memory.logged_logAll m _ fs⟩, ?_, fun r hr => ?_, fun h r hr => ?_⟩
    · exact hsublist.nodup (Memory.nodup_keys_fresh m urls owner).of_map
    · exact Memory.mem_fresh.1 (hsublist.subset hr)
    · have hfailures : Memory.failures ((m.logAll (m.fresh urls owner)).run fs).1 = [] := by
        apply Memory.eq_nil_of_verdict
        intro f hf hfile
        rw [h f hf] at hfile
        cases hfile
      rw [Memory.written_of_failures_eq_nil hfailures, Memory.map_fst_logAll]
      exact Memory.mem_fresh.2 hr
  · obtain ⟨result, fs', hrun, hcases⟩ := Relational.addBatch_cases r fs urls owner
    simp only [storage, Relational.storage, run_delegate_relational, hrun]
    obtain ⟨-, -, htable⟩ | ⟨f, rfl, hkind, htable, -⟩ := hcases
    · obtain ⟨added, hrows, hnodup, hmem⟩ :=
        Table.exists_added owner (r.table fs).rows urls.nodup hurls
      simp only [Keyed.mem_entries_iff] at hmem
      exact ⟨added, ⟨rfl, by rw [htable, hrows]⟩, hnodup, fun row => (hmem row).1,
        fun _ row => (hmem row).2⟩
    · refine ⟨[], ⟨rfl, by rw [htable, List.append_nil]⟩, List.nodup_nil,
        List.forall_mem_nil _, fun h => ?_⟩
      exact absurd (h f rfl) hkind

/-- Adding a batch adds one record for each of its links that is vacant. -/
theorem added_addBatch (hurls : (urls.entries.map Prod.snd).Nodup)
    (h : Undisturbed ((storage.addBatch urls owner).run s).1) :
    ∃ records, Added records s ((storage.addBatch urls owner).run s).2 ∧ records.Nodup ∧
      ∀ r, r ∈ records ↔ r.owner = owner ∧ r.deleted = false ∧ urls.find? r.code = some r.url ∧
        Vacant s owner r.code r.url := by
  obtain ⟨records, hadded, hnodup, hvacant, hall⟩ := added_addBatch_part hurls owner s
  exact ⟨records, hadded, hnodup, fun r => ⟨hvacant r, hall h r⟩⟩

end Store

end ShortLinks
