import ShortLinks.Proofs.Service
import ShortLinks.Proofs.Store.Backup
import ShortLinks.Proofs.Store.Either

/-!
# What operations leave of the links

Whatever an operation does and however it ends, every link there was is there afterwards, under the
same owner and code and with the same URL. It may have got its tombstone, but only from a deletion
of its own code by its own owner, and a tombstone never goes away. So what was taken stays taken.
-/

namespace ShortLinks

/-- No row goes away when vacant links are inserted. -/
theorem Table.subset_insertAll (owner : String) (rows : List Record)
    (entries : List (String × String)) : rows ⊆ insertAll owner rows entries := by
  induction entries generalizing rows with
  | nil => exact List.Subset.refl rows
  | cons entry rest ih =>
    intro row hrow
    exact ih _ (mem_insertVacant.2 (.inl hrow))

/-- A refusal of the engine is a fault of the backend. -/
theorem Relational.isBackend_refused (operation : String) (r : Relational) (what kind : String)
    (refusal : SqlRefusal) : ((r.refused what kind refusal).answer operation r).kind.isBackend := by
  rw [refused]
  split <;> rfl

/-- An insert that is no conflict fails with a fault of the backend. -/
theorem Relational.isBackend_insertOne {r : Relational} {t t' : Table} {owner code url : String}
    {stop : Stop} (h : insertOne r t owner code url = (.error stop, t'))
    (hconflict : (stop.answer "add" r).kind ≠ .conflict) :
    (stop.answer "add" r).kind.isBackend := by
  rw [insertOne] at h
  split at h
  · cases h
  · cases h
    exact absurd rfl hconflict
  · cases h
    exact isBackend_refused _ _ _ _ _

namespace Store

variable {s s' s'' : Setting Store} {may may' : String → String → Prop} {α : Type}
  {owner code url : String} {link link' : Link}

/-- Both stores are of one kind. -/
def SameKind (s s' : Setting Store) : Prop :=
  match s.store, s'.store with
  | .memory _, .memory _ | .relational _, .relational _ => True
  | _, _ => False

/-- A store is of its own kind. -/
theorem SameKind.refl (s : Setting Store) : SameKind s s := by
  obtain ⟨_ | _, _⟩ := s <;> trivial

/-- Stores of one kind with a third are of one kind. -/
theorem SameKind.trans (h : SameKind s s') (h' : SameKind s' s'') : SameKind s s'' := by
  obtain ⟨_ | _, _⟩ := s <;> obtain ⟨_ | _, _⟩ := s' <;> obtain ⟨_ | _, _⟩ := s'' <;> trivial

/-- What a store does leaves it of its kind. -/
theorem sameKind_delegate (inMemory : Action Memory α) (inTable : Action Relational α)
    (s : Setting Store) : SameKind s ((delegate inMemory inTable).run s).2 := by
  obtain ⟨m | r, fs⟩ := s
  · rw [run_delegate_memory]
    trivial
  · rw [run_delegate_relational]
    trivial

/-- Every link stays what it is, or gets its tombstone where that may be. -/
structure Lasts (may : String → String → Prop) (s s' : Setting Store) : Prop where
  kind : SameKind s s'
  distinct : Distinct s → Distinct s'
  links : ∀ owner code link, Has s owner code link → Has s' owner code link ∨
    link.deleted = false ∧ may code owner ∧ Has s' owner code { link with deleted := true }

/-- Where nothing happens, every link stays what it is. -/
theorem Lasts.refl (may : String → String → Prop) (s : Setting Store) : Lasts may s s :=
  ⟨.refl s, id, fun _ _ _ h => .inl h⟩

/-- Links that last from state to state last throughout. -/
theorem Lasts.trans (h : Lasts may s s') (h' : Lasts may s' s'') : Lasts may s s'' where
  kind := h.kind.trans h'.kind
  distinct hdistinct := h'.distinct (h.distinct hdistinct)
  links owner code link hhas := by
    obtain hsame | ⟨hkept, hmay, hburied⟩ := h.links owner code link hhas
    · exact h'.links owner code link hsame
    · obtain hsame | ⟨hnot, -, -⟩ := h'.links owner code _ hburied
      · exact .inr ⟨hkept, hmay, hsame⟩
      · cases hnot

/-- Links last also where more may get a tombstone. -/
theorem Lasts.mono (h : Lasts may s s') (hmono : ∀ code owner, may code owner → may' code owner) :
    Lasts may' s s' where
  kind := h.kind
  distinct := h.distinct
  links owner code link hhas := by
    obtain hsame | ⟨hkept, hmay, hburied⟩ := h.links owner code link hhas
    · exact .inl hsame
    · exact .inr ⟨hkept, hmono _ _ hmay, hburied⟩

/-- Links that are all kept last. -/
theorem lasts_of_subset (hkind : SameKind s s') (hdistinct : Distinct s → Distinct s')
    (h : ∀ owner code link, Has s owner code link → Has s' owner code link) : Lasts may s s' :=
  ⟨hkind, hdistinct, fun owner code link hhas => .inl (h owner code link hhas)⟩

/-- Where nothing was touched, every link stays what it is. -/
theorem lasts_of_untouched (h : Untouched s s') : Lasts may s s' := by
  have hkind : SameKind s s' := by
    obtain ⟨_ | _, _⟩ := s <;> obtain ⟨_ | _, _⟩ := s' <;> trivial
  exact lasts_of_subset hkind h.kept.distinct fun _ _ _ => h.has.2

/-- A link keeps its URL, and its tombstone if it has one. -/
theorem Lasts.has (h : Lasts may s s') (hhas : Has s owner code link) :
    ∃ after, Has s' owner code after ∧ after.url = link.url ∧ (link.deleted → after = link) := by
  obtain hsame | ⟨hkept, -, hburied⟩ := h.links owner code link hhas
  · exact ⟨link, hsame, rfl, fun _ => rfl⟩
  · exact ⟨_, hburied, rfl, fun hdeleted => by simp [hkept] at hdeleted⟩

/-- What is in the way of a link stays in its way. -/
theorem Lasts.taken (h : Lasts may s s') (htaken : ¬Vacant s owner code url) :
    ¬Vacant s' owner code url := by
  intro hvacant
  apply htaken
  obtain ⟨m | r, fs⟩ := s <;> obtain ⟨m' | r', fs'⟩ := s'
  · refine Option.eq_none_iff_forall_ne_some.2 fun link hlink => ?_
    have hhas : Has ⟨.memory m, fs⟩ owner code link := hlink
    obtain ⟨after, hafter, -⟩ := h.has hhas
    have hnone : m'.owners.link? owner code = none := hvacant
    have hsome : m'.owners.link? owner code = some after := hafter
    rw [hnone] at hsome
    cases hsome
  · cases h.kind
  · cases h.kind
  · intro row hrow
    have hhas : Has ⟨.relational r, fs⟩ row.owner row.code ⟨row.url, row.deleted⟩ := hrow
    obtain ⟨after, hafter, hurl, -⟩ := h.has hhas
    have hfree := hvacant _ hafter
    exact ⟨hfree.1, fun hsame => hfree.2 (hurl.trans hsame)⟩

/-- A link is in the way of itself. -/
theorem not_vacant_of_has (h : Has s owner code link) : ¬Vacant s owner code url := by
  intro hvacant
  obtain ⟨m | r, fs⟩ := s
  · have hnone : m.owners.link? owner code = none := hvacant
    have hsome : m.owners.link? owner code = some link := h
    rw [hnone] at hsome
    cases hsome
  · exact (hvacant _ h).1 rfl

/-- No owner has two links under one code. -/
theorem Distinct.eq_of_has (h : Distinct s) (hhas : Has s owner code link)
    (hhas' : Has s owner code link') : link = link' := by
  obtain ⟨m | r, fs⟩ := s
  · exact Option.some.inj (hhas.symm.trans hhas')
  · have hrow := List.inj_on_of_nodup_map h hhas hhas' rfl
    obtain ⟨_, _⟩ := link
    obtain ⟨_, _⟩ := link'
    cases hrow
    rfl

/-- An addition leaves every link what it is. -/
theorem lasts_add (s : Setting Store) (code url owner : String) :
    Lasts may s ((storage.add code url owner).run s).2 := by
  obtain ⟨hkept, hcases⟩ := add_cases s code url owner
  refine lasts_of_subset (sameKind_delegate _ _ s) hkept.distinct fun o c l hhas => ?_
  obtain ⟨-, -, -, hlinks⟩ | ⟨f, -, hlinks, -⟩ := hcases
  · exact (hlinks o c l).2 (.inl hhas)
  · exact (hlinks o c l).2 hhas

/-- A link that cannot be added for another reason than a conflict is a fault of the backend. -/
theorem isBackend_of_add {f : Fault} (h : ((storage.add code url owner).run s).1 = .error f)
    (hconflict : f.kind ≠ .conflict) : f.kind.isBackend := by
  obtain ⟨m | r, fs⟩ := s
  · simp only [storage, run_delegate_memory, Memory.storage, Memory.run_add] at h
    split at h
    · cases h
      exact absurd rfl hconflict
    · rcases hlog : (m.log { code, url, owner }).run fs with ⟨f' | _, fs'⟩ <;> rw [hlog] at h
      · cases h
        rw [Memory.kind_of_run_log hlog]
        rfl
      · cases h
  · simp only [storage, run_delegate_relational, Relational.storage, Relational.add] at h
    obtain ⟨fs', ⟨-, -, hrun⟩ | ⟨-, -, hrun⟩⟩ :=
      Relational.run_cases "add" (fun r t => Relational.insertOne r t owner code url) r fs
    · rw [hrun] at h
      cases h
      rfl
    · rw [hrun] at h
      rcases hinsert : Relational.insertOne r (r.table fs) owner code url with ⟨stop | _, t⟩ <;>
        rw [hinsert] at h <;> cases h
      exact Relational.isBackend_insertOne hinsert hconflict

/-- A batch leaves every link what it is. -/
theorem lasts_addBatch (s : Setting Store) (urls : Keyed String String) (owner : String) :
    Lasts may s ((storage.addBatch urls owner).run s).2 := by
  have hkind := sameKind_delegate (Memory.storage.addBatch urls owner)
    (Relational.storage.addBatch urls owner) s
  obtain ⟨m | r, fs⟩ := s
  · refine lasts_of_subset hkind (fun _ => ?_) fun o c l hhas => ?_
    · simp only [storage, run_delegate_memory]
      trivial
    · simp only [storage, run_delegate_memory, Memory.storage, Memory.run_addBatch, Has] at hhas ⊢
      rw [Memory.link?_replay_written (Memory.map_fst_logAll m _ fs), if_neg, hhas]
      rintro ⟨rfl, hnone, -⟩
      rw [hhas] at hnone
      cases hnone
  · obtain ⟨result, fs', hrun, hcases⟩ := Relational.addBatch_cases r fs urls owner
    simp only [storage, run_delegate_relational, Relational.storage, hrun] at hkind ⊢
    obtain ⟨-, -, htable⟩ | ⟨f, -, -, htable, -⟩ := hcases
    · refine lasts_of_subset hkind (kept_relational htable Table.nodup_codes_insertAll).distinct
        fun o c l hhas => ?_
      simp only [Has, htable]
      exact Table.subset_insertAll _ _ _ hhas
    · refine lasts_of_subset hkind (kept_relational htable id).distinct fun o c l hhas => ?_
      simp only [Has, htable]
      exact hhas

/-- Deleting sets no tombstone but that of the link of this owner under this code. -/
theorem lasts_delete (s : Setting Store) (code owner : String) :
    Lasts (fun c o => c = code ∧ o = owner) s ((storage.delete code owner).run s).2 := by
  obtain ⟨hkept, hcases⟩ := delete_cases s code owner
  refine ⟨sameKind_delegate _ _ s, hkept.distinct, fun o c l hhas => ?_⟩
  obtain ⟨-, hlinks⟩ | ⟨f, -, hlinks, -⟩ := hcases
  · by_cases hoc : o = owner ∧ c = code
    · cases hdeleted : l.deleted with
      | true =>
        refine .inl ((hlinks o c l).2 ⟨l, hhas, ?_⟩)
        rw [if_pos hoc, ← hdeleted]
      | false =>
        refine .inr ⟨rfl, hoc.symm, (hlinks o c _).2 ⟨l, hhas, ?_⟩⟩
        rw [if_pos hoc]
    · exact .inl ((hlinks o c l).2 ⟨l, hhas, by rw [if_neg hoc]⟩)
  · exact .inl ((hlinks o c l).2 hhas)

/-- A backup leaves every link what it is. -/
theorem lasts_backup (s : Setting Store) : Lasts may s (storage.backup.run s).2 := by
  have hkind := sameKind_delegate Memory.storage.backup Relational.storage.backup s
  obtain ⟨m | r, fs⟩ := s
  · simp only [storage, run_delegate_memory] at hkind ⊢
    refine lasts_of_subset hkind (fun _ => trivial) fun o c l hhas => ?_
    have howners : (Memory.storage.backup.run ⟨m, fs⟩).2.store.owners = m.owners :=
      Memory.owners_backup m fs
    simp only [Has, howners]
    exact hhas
  · simp only [storage, run_delegate_relational] at hkind ⊢
    exact lasts_of_subset hkind id fun _ _ _ => id

/-- A ping leaves every link what it is. -/
theorem lasts_ping (s : Setting Store) : Lasts may s (storage.ping.run s).2 := by
  have hkind := sameKind_delegate Memory.storage.ping Relational.storage.ping s
  obtain ⟨m | r, fs⟩ := s
  · simp only [storage, run_delegate_memory] at hkind ⊢
    exact lasts_of_subset hkind id fun _ _ _ => id
  · obtain ⟨fs', ⟨-, htable, hrun⟩ | ⟨-, htable, hrun⟩⟩ :=
      Relational.run_cases "ping" (fun _ t => (.ok (), t)) r fs
    all_goals
      simp only [storage, run_delegate_relational, Relational.storage, hrun] at hkind ⊢
      exact lasts_of_untouched ⟨rfl, htable⟩

/-- Shortening a URL leaves every link what it is. -/
theorem lasts_shorten (s : Setting Store) (scheme : Scheme) (url owner : String) :
    Lasts may s ((Service.add storage scheme url owner).run s).2 := by
  have hadded : Lasts may s ((storage.add (scheme.encode url) url owner).run s).2 :=
    lasts_add _ _ _ _
  rw [Service.run_add]
  split
  · exact .refl may s
  · rcases hadd : (storage.add (scheme.encode url) url owner).run s with ⟨_ | _, s'⟩ <;>
      rw [hadd] at hadded <;> exact hadded

/-- Shortening a batch leaves every link what it is. -/
theorem lasts_shortenBatch (s : Setting Store) (scheme : Scheme) (batch : Keyed String String)
    (owner : String) : Lasts may s ((Service.addBatch storage scheme batch owner).run s).2 := by
  have hadded : Lasts may s ((storage.addBatch (Service.byCode scheme batch) owner).run s).2 :=
    lasts_addBatch _ _ _
  rw [Service.run_addBatch]
  split
  · exact .refl may s
  · split
    · exact .refl may s
    · rcases hadd : (storage.addBatch (Service.byCode scheme batch) owner).run s
        with ⟨_ | _, s'⟩ <;> rw [hadd] at hadded <;> exact hadded

/-- A URL that is not vacant is not shortened as new: its code is given out, or the backend
fails. -/
theorem shorten_taken {scheme : Scheme} (hvalid : Url.validate url = .ok ())
    (htaken : ¬Vacant s owner (scheme.encode url) url) :
    ((Service.add storage scheme url owner).run s).1 = .ok (.existing (scheme.encode url)) ∨
      ∃ f, ((Service.add storage scheme url owner).run s).1 = .error f ∧ f.kind.isBackend := by
  obtain ⟨-, hcases⟩ := add_cases s (scheme.encode url) url owner
  rw [Service.run_add, hvalid]
  dsimp only
  rcases hadd : (storage.add (scheme.encode url) url owner).run s with ⟨f | _, s'⟩
  · by_cases hkind : f.kind = .conflict
    · exact .inl (if_pos hkind)
    · exact .inr ⟨f, if_neg hkind, isBackend_of_add (congrArg Prod.fst hadd) hkind⟩
  · rw [hadd] at hcases
    obtain ⟨-, hvacant, -⟩ | ⟨f, herror, -⟩ := hcases
    · exact absurd hvacant htaken
    · cases herror

end Store

end ShortLinks
