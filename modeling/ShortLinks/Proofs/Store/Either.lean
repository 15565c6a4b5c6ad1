import Mathlib.Data.Set.Card
import ShortLinks.Proofs.Session.Steps
import ShortLinks.Proofs.Store.Memory
import ShortLinks.Proofs.Store.Relational

/-!
# Links of a store of either kind

A store has a link for an owner under a code: in the map of the owner, or in a row of the table. A
link is vacant where it could be added: in memory when the owner has no link under the code, in the
table when no row of any owner has the code or the URL. What every operation does is said in these
words alike for both kinds.
-/

namespace ShortLinks.Store

variable {s s' : Setting Store} {owner code url : String} {link : Link}

/-- An owner has a link under a code. -/
def Has (s : Setting Store) (owner code : String) (link : Link) : Prop :=
  match s.store with
  | .memory m => m.owners.link? owner code = some link
  | .relational r => ⟨code, link.url, owner, link.deleted⟩ ∈ (r.table s.files).rows

instance (s : Setting Store) (owner code : String) (link : Link) :
    Decidable (Has s owner code link) :=
  match s with
  | ⟨.memory m, _⟩ => inferInstanceAs (Decidable (m.owners.link? owner code = some link))
  | ⟨.relational r, fs⟩ =>
    inferInstanceAs (Decidable (⟨code, link.url, owner, link.deleted⟩ ∈ (r.table fs).rows))

/-- Nothing is in the way of adding a link. -/
def Vacant (s : Setting Store) (owner code url : String) : Prop :=
  match s.store with
  | .memory m => m.owners.link? owner code = none
  | .relational r => Table.Vacant (r.table s.files).rows code url

instance (s : Setting Store) (owner code url : String) : Decidable (Vacant s owner code url) :=
  match s with
  | ⟨.memory m, _⟩ => inferInstanceAs (Decidable (m.owners.link? owner code = none))
  | ⟨.relational r, fs⟩ => inferInstanceAs (Decidable (Table.Vacant (r.table fs).rows code url))

/-- The links of a store can be read. -/
def Readable (s : Setting Store) : Prop :=
  match s.store with
  | .memory _ => True
  | .relational r => Relational.Readable r (r.table s.files)

/-- No two rows of a table have one code. -/
def Distinct (s : Setting Store) : Prop :=
  match s.store with
  | .memory _ => True
  | .relational r => ((r.table s.files).rows.map Record.code).Nodup

/-- Nothing goes wrong on its own: a journal, if there is one, can be written, and a table is within
reach. -/
def Sound (s : Setting Store) : Prop :=
  match s.store with
  | .memory m => m.Sound s.files
  | .relational r => Relational.Sound r (r.table s.files)

/-- A store that works can be read. -/
theorem Sound.readable (h : Sound s) : Readable s := by
  obtain ⟨m | r, fs⟩ := s
  · trivial
  · exact ⟨h.patient, h.present⟩

/-- A store without links has no two rows with one code. -/
theorem distinct_of_empty (hempty : ∀ o c l, ¬Has s o c l) : Distinct s := by
  obtain ⟨m | r, fs⟩ := s
  · trivial
  · have hrows : (r.table fs).rows = [] := by
      rw [List.eq_nil_iff_forall_not_mem]
      exact fun row hrow => hempty row.owner row.code ⟨row.url, row.deleted⟩ hrow
    simp [Distinct, hrows]

/-- What every operation keeps. -/
structure Kept (s s' : Setting Store) : Prop where
  distinct : Distinct s → Distinct s'
  sound : Sound s → Sound s'

/-- What leaves the journal and the fault plan keeps what there is besides the links. -/
theorem kept_memory {m m' : Memory} {fs fs' : FileSystem} (hjournal : m'.journal = m.journal)
    (hfaults : fs'.faults = fs.faults) : Kept ⟨.memory m, fs⟩ ⟨.memory m', fs'⟩ where
  distinct _ := trivial
  sound hsound h := hfaults.trans (hsound (hjournal ▸ h))

/-- An operation that changes no more than the rows keeps what there is besides them. -/
theorem kept_relational {r : Relational} {fs fs' : FileSystem} {rows : List Record}
    (htable : r.table fs' = { r.table fs with rows })
    (hrows : ((r.table fs).rows.map Record.code).Nodup → (rows.map Record.code).Nodup) :
    Kept ⟨.relational r, fs⟩ ⟨.relational r, fs'⟩ where
  distinct h := by
    simp only [Distinct, htable]
    exact hrows h
  sound h := by
    simp only [Sound, htable]
    exact ⟨h.patient, h.writable, h.faultless, h.present, h.unlocked, h.unpoisoned⟩

/-- Adding a link adds it where it is vacant; a conflict means that it was not. -/
theorem add_cases (s : Setting Store) (code url owner : String) :
    let ended := (storage.add code url owner).run s
    Kept s ended.2 ∧
    ((ended.1 = .ok () ∧ Vacant s owner code url ∧ Readable ended.2 ∧
      ∀ o c l, Has ended.2 o c l ↔ Has s o c l ∨ o = owner ∧ c = code ∧ l = ⟨url, false⟩) ∨
    ∃ f, ended.1 = .error f ∧ (∀ o c l, Has ended.2 o c l ↔ Has s o c l) ∧
      (f.kind = .conflict → ¬Vacant s owner code url ∧ Readable ended.2) ∧
      (f.kind ≠ .conflict → ¬Sound s)) := by
  obtain ⟨m | r, fs⟩ := s
  · simp only [storage, run_delegate_memory]
    obtain ⟨hjournal, hfaults, hcases⟩ := Memory.add_cases m fs code url owner
    refine ⟨kept_memory hjournal hfaults, ?_⟩
    obtain ⟨hok, hfree, howners⟩ | ⟨f, herror, howners, hconflict, hfault⟩ := hcases
    · refine .inl ⟨hok, hfree, trivial, fun o c l => ?_⟩
      simp only [Has, Memory.storage, howners, Owners.link?_put]
      split
      · next h =>
        rw [← h.1, ← h.2, hfree]
        simp [eq_comm]
      · next h =>
        have hne : ¬(o = owner ∧ c = code ∧ l = ⟨url, false⟩) := fun e => h ⟨e.1.symm, e.2.1.symm⟩
        simp [hne]
    · refine .inr ⟨f, herror, fun o c l => ?_, fun h => ⟨hconflict h, trivial⟩, hfault⟩
      simp only [Has, Memory.storage, howners]
  · simp only [storage, run_delegate_relational]
    obtain ⟨result, fs', hrun, hcases⟩ := Relational.add_cases r fs code url owner
    rw [Relational.storage, hrun]
    obtain ⟨rfl, hvacant, hreadable, htable⟩ | ⟨f, rfl, htable, hconflict, hfault⟩ := hcases
    · refine ⟨kept_relational htable fun h => Table.nodup_codes_concat h hvacant,
        .inl ⟨rfl, hvacant, ?_, fun o c l => ?_⟩⟩
      · simp only [Readable, htable]
        exact hreadable
      · obtain ⟨u, d⟩ := l
        simp only [Has, htable, List.mem_append, List.mem_singleton, Record.mk.injEq, Link.mk.injEq]
        tauto
    · refine ⟨kept_relational htable id,
        .inr ⟨f, rfl, fun o c l => ?_, fun h => ⟨(hconflict h).1, ?_⟩, hfault⟩⟩
      · simp only [Has, htable]
      · simp only [Readable, htable]
        exact (hconflict h).2

/-- A batch adds its links where they are vacant, whether others were taken or not; or it reports
another fault, and has added no tombstone. -/
theorem addBatch_cases (s : Setting Store) {urls : Keyed String String}
    (hurls : (urls.entries.map Prod.snd).Nodup) (owner : String) :
    let ended := (storage.addBatch urls owner).run s
    Kept s ended.2 ∧
    (((∀ f, ended.1 = .error f → f.kind = .conflict) ∧ (urls.entries ≠ [] → Readable ended.2) ∧
      ∀ o c l, Has ended.2 o c l ↔ Has s o c l ∨ o = owner ∧
        ∃ url, urls.find? c = some url ∧ Vacant s owner c url ∧ l = ⟨url, false⟩) ∨
    (∃ f, ended.1 = .error f ∧ f.kind ≠ .conflict ∧ ¬Sound s) ∧
      ∀ o c l, Has ended.2 o c l → Has s o c l ∨ l.deleted = false) := by
  obtain ⟨m | r, fs⟩ := s
  · simp only [storage, run_delegate_memory]
    obtain ⟨hjournal, hfaults, hcases⟩ := Memory.addBatch_cases m urls owner fs
    refine ⟨kept_memory hjournal hfaults, ?_⟩
    obtain ⟨hconflict, hlinks⟩ | ⟨hfault, hlinks⟩ := hcases
    · refine .inl ⟨hconflict, fun _ => trivial, fun o c l => ?_⟩
      simp only [Has, Vacant, Memory.storage, hlinks]
      split
      · next h =>
        rw [h.1, h.2, Option.map_eq_some_iff]
        simp [eq_comm]
      · next h =>
        have hnone : ¬(o = owner ∧ ∃ url, urls.find? c = some url ∧
            m.owners.link? owner c = none ∧ l = ⟨url, false⟩) := by
          rintro ⟨howner, _, _, hfree, _⟩
          exact h ⟨howner, hfree⟩
        simp [hnone]
    · exact .inr ⟨hfault, hlinks⟩
  · simp only [storage, run_delegate_relational]
    obtain ⟨result, fs', hrun, hcases⟩ := Relational.addBatch_cases r fs urls owner
    rw [Relational.storage, hrun]
    obtain ⟨rfl, hreadable, htable⟩ | ⟨f, rfl, hkind, htable, hsound⟩ := hcases
    · refine ⟨kept_relational htable Table.nodup_codes_insertAll,
        .inl ⟨?_, fun hentries => ?_, fun o c l => ?_⟩⟩
      · intro f hf
        cases hf
      · simp only [Readable, htable]
        exact hreadable hentries
      · obtain ⟨u, d⟩ := l
        simp only [Has, Vacant, htable, Table.mem_insertAll urls.nodup hurls,
          Keyed.mem_entries_iff, Link.mk.injEq]
        grind
    · refine ⟨kept_relational htable id, .inr ⟨⟨f, rfl, hkind, hsound⟩, fun o c l h => .inl ?_⟩⟩
      simpa only [Has, htable] using h

/-- Deleting sets the tombstone of the link of this owner under this code and of no other. -/
theorem delete_cases (s : Setting Store) (code owner : String) :
    let ended := (storage.delete code owner).run s
    Kept s ended.2 ∧
    ((ended.1 = .ok () ∧ ∀ o c l, Has ended.2 o c l ↔ ∃ before, Has s o c before ∧
        l = if o = owner ∧ c = code then { before with deleted := true } else before) ∨
    ∃ f, ended.1 = .error f ∧ (∀ o c l, Has ended.2 o c l ↔ Has s o c l) ∧ ¬Sound s) := by
  obtain ⟨m | r, fs⟩ := s
  · simp only [storage, run_delegate_memory]
    obtain ⟨hjournal, hfaults, hcases⟩ := Memory.delete_cases m fs code owner
    refine ⟨kept_memory hjournal hfaults, ?_⟩
    obtain ⟨hok, hlinks⟩ | ⟨f, herror, howners, hsound⟩ := hcases
    · refine .inl ⟨hok, fun o c l => ?_⟩
      simp only [Has, Memory.storage, hlinks]
      split
      · next h =>
        rw [h.1, h.2, Option.map_eq_some_iff]
        simp [eq_comm]
      · simp
    · refine .inr ⟨f, herror, fun o c l => ?_, hsound⟩
      simp only [Has, Memory.storage, howners]
  · simp only [storage, run_delegate_relational]
    obtain ⟨result, fs', hrun, hcases⟩ := Relational.delete_cases r fs code owner
    rw [Relational.storage, hrun]
    obtain ⟨rfl, htable⟩ | ⟨f, rfl, htable, hsound⟩ := hcases
    · refine ⟨kept_relational htable fun h => ?_, .inl ⟨rfl, fun o c l => ?_⟩⟩
      · change (((r.table fs).bury code owner).rows.map Record.code).Nodup
        rwa [Table.map_code_bury]
      · obtain ⟨u, d⟩ := l
        simp only [Has, htable, Table.mem_bury]
        constructor
        · rintro ⟨before, hrow, rfl⟩
          refine ⟨⟨u, before⟩, hrow, ?_⟩
          split <;> rfl
        · rintro ⟨⟨_, before⟩, hrow, h⟩
          split at h
          · next hoc =>
            cases h
            exact ⟨before, hrow, by rw [if_pos hoc]⟩
          · next hoc =>
            cases h
            exact ⟨d, hrow, by rw [if_neg hoc]⟩
    · refine ⟨kept_relational htable id, .inr ⟨f, rfl, fun o c l => ?_, hsound⟩⟩
      simp only [Has, htable]

/-- Neither the links nor what is around them were touched. -/
def Untouched (s s' : Setting Store) : Prop :=
  match s.store, s'.store with
  | .memory m, .memory m' => m' = m ∧ s'.files = s.files
  | .relational r, .relational r' => r' = r ∧ r.table s'.files = r.table s.files
  | _, _ => False

/-- Where nothing was touched, the same links are there. -/
theorem Untouched.has (h : Untouched s s') : Has s' owner code link ↔ Has s owner code link := by
  obtain ⟨m | r, fs⟩ := s <;> obtain ⟨m' | r', fs'⟩ := s'
  · obtain ⟨rfl, -⟩ := h
    exact Iff.rfl
  · cases h
  · cases h
  · obtain ⟨rfl, htable⟩ := h
    simp only [Has, htable]

/-- Where nothing was touched, everything was kept. -/
theorem Untouched.kept (h : Untouched s s') : Kept s s' := by
  obtain ⟨m | r, fs⟩ := s <;> obtain ⟨m' | r', fs'⟩ := s'
  · obtain ⟨rfl, hfiles⟩ := h
    exact kept_memory rfl (congrArg FileSystem.faults hfiles)
  · cases h
  · cases h
  · obtain ⟨rfl, htable⟩ := h
    exact kept_relational htable id

/-- A question that both kinds answer touches nothing. -/
theorem run_question {α : Type} (question : Memory → Except Fault α) (operation what : String)
    (read : List Record → Except Fault α) (s : Setting Store) :
    let ended := (delegate (Action.answer question) (Relational.query operation what read)).run s
    Untouched s ended.2 ∧ match s.store with
      | .memory m => ended.1 = question m
      | .relational r => Relational.Readable r (r.table s.files) →
        ended.1 = read (r.table s.files).rows := by
  obtain ⟨m | r, fs⟩ := s
  · simp only [run_delegate_memory, Action.run_answer]
    exact ⟨⟨rfl, rfl⟩, trivial⟩
  · obtain ⟨result, fs', hrun, htable, hresult⟩ := Relational.run_query operation what read r fs
    simp only [run_delegate_relational, hrun]
    exact ⟨⟨rfl, htable⟩, fun hreadable => hresult hreadable.1 hreadable.2⟩

/-- A listing shows exactly the links of the owner. -/
theorem getAll_cases (s : Setting Store) (owner : String) :
    let ended := (storage.getAll owner).run s
    Untouched s ended.2 ∧ (Readable s → Distinct s →
      ((∃ links, ended.1 = .ok links ∧ ∀ c l, links.find? c = some l ↔ Has s owner c l) ∧
          ∃ c l, Has s owner c l) ∨
      ended.1 = .error (.ownerUnknown owner) ∧ ∀ c l, ¬Has s owner c l) := by
  have hrun := run_question (fun m => m.owners.listing owner) "get_all"
    ("failed to list URLs of '" ++ owner ++ "'") (Relational.listing owner) s
  refine ⟨hrun.1, fun hreadable hdistinct => ?_⟩
  obtain ⟨m | r, fs⟩ := s
  · rw [show ((storage.getAll owner).run ⟨.memory m, fs⟩).1 = _ from hrun.2]
    exact Owners.listing_cases m.owners owner
  · rw [show ((storage.getAll owner).run ⟨.relational r, fs⟩).1 = _ from hrun.2 hreadable]
    exact Relational.listing_cases hdistinct owner

/-- A code resolves to the URL of a link under it that is not deleted, if any owner has one. -/
theorem get_cases (s : Setting Store) (code : String) :
    let ended := (storage.get code).run s
    Untouched s ended.2 ∧ (Readable s → Distinct s →
      (∃ owner url, ended.1 = .ok url ∧ Has s owner code ⟨url, false⟩) ∨
      (ended.1 = .error (.codeNotFound code) ∧ ∀ o l, ¬Has s o code l) ∨
      ended.1 = .error (.codeDeleted code) ∧ (∃ o l, Has s o code l) ∧
        ∀ o l, Has s o code l → l.deleted) := by
  have hrun := run_question (fun m => m.owners.resolve code) "get"
    ("failed to look up short code '" ++ code ++ "'") (Relational.resolve code) s
  refine ⟨hrun.1, fun hreadable hdistinct => ?_⟩
  obtain ⟨m | r, fs⟩ := s
  · rw [show ((storage.get code).run ⟨.memory m, fs⟩).1 = _ from hrun.2]
    exact Owners.resolve_cases m.owners code
  · rw [show ((storage.get code).run ⟨.relational r, fs⟩).1 = _ from hrun.2 hreadable]
    obtain hfound | ⟨hunknown, hnone⟩ | ⟨hburied, ⟨row, hrow, hcode⟩, hdeleted⟩ :=
      Relational.resolve_cases hdistinct code
    · exact .inl hfound
    · exact .inr (.inl ⟨hunknown, fun o l hrow => hnone _ hrow rfl⟩)
    · refine .inr (.inr ⟨hburied, ⟨row.owner, ⟨row.url, row.deleted⟩, ?_⟩, ?_⟩)
      · simp only [Has, ← hcode]
        exact hrow
      · exact fun o l hrow => hdeleted _ hrow rfl

/-- A list without duplicates is as long as its elements are many. -/
theorem ncard_setOf {α : Type} [DecidableEq α] {p : α → Prop} {l : List α} (hnodup : l.Nodup)
    (hmem : ∀ a, a ∈ l ↔ p a) : {a | p a}.ncard = l.length := by
  have hset : {a | p a} = (l.toFinset : Set α) := by
    ext a
    simp [← hmem]
  rw [hset, Set.ncard_coe_finset, List.toFinset_card_of_nodup hnodup]

/-- The statistics count the links and the owners who have one. -/
theorem stats_cases (s : Setting Store) :
    let ended := storage.stats.run s
    Untouched s ended.2 ∧ (Readable s → Distinct s → ended.1 = .ok
      ⟨{r : Record | Has s r.owner r.code ⟨r.url, r.deleted⟩}.ncard,
        {owner | ∃ c l, Has s owner c l}.ncard⟩) := by
  have hrun := run_question (fun m => .ok m.owners.stats) "get_stats" "stats query failed"
    (fun rows => .ok ⟨rows.length, (Table.owners rows).length⟩) s
  refine ⟨hrun.1, fun hreadable hdistinct => ?_⟩
  obtain ⟨m | r, fs⟩ := s
  · rw [show (storage.stats.run ⟨.memory m, fs⟩).1 = _ from hrun.2, Owners.stats_eq]
    have hlinks := ncard_setOf (Owners.nodup_keys_records m.owners).of_map
      fun r => Owners.mem_records
    have howners := ncard_setOf m.owners.nodup_holders fun o => Owners.mem_holders
    simp only [Has, hlinks, howners]
  · rw [show (storage.stats.run ⟨.relational r, fs⟩).1 = _ from hrun.2 hreadable]
    have hlinks := ncard_setOf hdistinct.of_map fun row => Iff.rfl
    have hmem (o : String) : o ∈ Table.owners (r.table fs).rows ↔
        ∃ c l, Has ⟨.relational r, fs⟩ o c l := by
      rw [Table.mem_owners]
      constructor
      · rintro ⟨row, hrow, rfl⟩
        exact ⟨row.code, ⟨row.url, row.deleted⟩, hrow⟩
      · rintro ⟨c, l, hrow⟩
        exact ⟨_, hrow, rfl⟩
    rw [ncard_setOf (Table.nodup_owners _) hmem, ← hlinks]
    rfl

end ShortLinks.Store
