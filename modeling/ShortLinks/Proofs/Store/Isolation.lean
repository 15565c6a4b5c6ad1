import ShortLinks.Proofs.Ends
import ShortLinks.Proofs.Service
import ShortLinks.Proofs.Session.Steps
import ShortLinks.Proofs.Sorted
import ShortLinks.Proofs.Store.Backup

/-!
# Owners do not meet in a memory store

What an owner has in a memory store is the links under the owner's codes. An operation for another
owner leaves these links as they are, however it ends. An operation for the owner itself reads
nothing else of the store: in two stores that have the same links of the owner it ends alike, and
leaves the same links of the owner, if in both nothing fails on the files.
-/

namespace ShortLinks

/-- A result is not that something failed on the files. -/
def Unfailed {α : Type} (result : Except Fault α) : Prop :=
  ∀ f, result = .error f → f.kind ≠ .fileOperation

namespace Memory

open Owners

variable {s t : Setting Memory} {code url owner other : String} {urls urls' : Keyed String String}

/-- Adding a link for another owner does not matter. -/
theorem sameOf_add (h : other ≠ owner) (code url : String) (s : Setting Memory) :
    SameOf owner ((add code url other).run s).2.store.owners s.store.owners := by
  intro c
  obtain ⟨-, -, ⟨-, -, howners⟩ | ⟨f, -, howners, -⟩⟩ := add_cases s.store s.files code url other
  · rw [howners, link?_put, if_neg fun hsame => h hsame.1]
  · rw [howners]

/-- A batch of somebody else leaves the links of an owner. -/
theorem sameOf_addBatch (h : other ≠ owner) (urls : Keyed String String) (s : Setting Memory) :
    SameOf owner ((addBatch urls other).run s).2.store.owners s.store.owners := by
  intro c
  rw [run_addBatch, link?_replay_written (map_fst_logAll _ _ _), if_neg fun hsame => h hsame.1.symm]

/-- A deletion of somebody else leaves the links of an owner. -/
theorem sameOf_delete (h : other ≠ owner) (code : String) (s : Setting Memory) :
    SameOf owner ((delete code other).run s).2.store.owners s.store.owners := by
  intro c
  obtain ⟨-, -, ⟨-, hlinks⟩ | ⟨f, -, howners, -⟩⟩ := delete_cases s.store s.files code other
  · rw [hlinks, if_neg fun hsame => h hsame.1.symm]
  · rw [howners]

/-- A backup leaves the links of every owner. -/
theorem sameOf_backup (owner : String) (s : Setting Memory) :
    SameOf owner (backup.run s).2.store.owners s.store.owners := by
  rw [owners_backup]
  exact .refl owner _

/-- What does not fail on the files has logged its record. -/
theorem log_of_unfailed {m : Memory} {r : Record} {fs fs' : FileSystem} {result : Except Fault Unit}
    (hlog : (m.log r).run fs = (result, fs')) (h : Unfailed result) : result = .ok () := by
  cases result with
  | error f => exact absurd (kind_of_run_log hlog) (h f rfl)
  | ok _ => rfl

/-- An addition that does not fail by itself depends on the link of its owner alone. -/
theorem run_add_unfailed (h : Unfailed ((add code url owner).run s).1) :
    ∃ fs, (add code url owner).run s =
      if (s.store.owners.link? owner code).isSome then
        (.error ⟨.conflict, "short code " ++ code ++ " already exists for owner " ++ owner⟩, s)
      else (.ok (), ⟨{ s.store with owners := s.store.owners.put { code, url, owner } }, fs⟩) := by
  rw [run_add] at h ⊢
  split
  · exact ⟨s.files, rfl⟩
  · next hfree =>
    rw [if_neg hfree] at h
    rcases hlog : (s.store.log { code, url, owner }).run s.files with ⟨f | _, fs⟩
    · rw [hlog] at h
      cases log_of_unfailed hlog h
    · exact ⟨fs, rfl⟩

/-- A deletion that does not fail by itself depends on the link of its owner alone. -/
theorem run_delete_unfailed (h : Unfailed ((delete code owner).run s).1) :
    ∃ fs, (delete code owner).run s = match s.store.owners.link? owner code with
      | none => (.ok (), s)
      | some link =>
        if link.deleted then (.ok (), s)
        else (.ok (), ⟨{ s.store with
          owners := s.store.owners.put { code, url := link.url, owner, deleted := true } }, fs⟩) := by
  rw [run_delete] at h ⊢
  cases hlink : s.store.owners.link? owner code with
  | none => exact ⟨s.files, rfl⟩
  | some link =>
    simp only [hlink] at h ⊢
    split
    · exact ⟨s.files, rfl⟩
    · next hkept =>
      rw [if_neg hkept] at h
      rcases hlog : (s.store.log { code, url := link.url, owner, deleted := true }).run s.files
        with ⟨f | _, fs⟩
      · rw [hlog] at h
        cases log_of_unfailed hlog h
      · exact ⟨fs, rfl⟩

/-- A batch that does not fail on the files adds all its links under codes that were free. -/
theorem run_addBatch_unfailed (h : Unfailed ((addBatch urls owner).run s).1) :
    ((addBatch urls owner).run s).1 = verdict owner (s.store.known urls owner) [] ∧
    ∀ c, ((addBatch urls owner).run s).2.store.owners.link? owner c =
      if s.store.owners.link? owner c = none then (urls.find? c).map fun url => ⟨url, false⟩
      else s.store.owners.link? owner c := by
  have hlinks := link?_replay_written (map_fst_logAll s.store (s.store.fresh urls owner) s.files)
  rw [run_addBatch] at h ⊢
  have hfailures : failures ((s.store.logAll (s.store.fresh urls owner)).run s.files).1 = [] :=
    eq_nil_of_verdict h
  simp only [hfailures]
  refine ⟨trivial, fun c => ?_⟩
  rw [hlinks, hfailures]
  simp

/-- Two stores have the same links of an owner. -/
def Shares (owner : String) (s t : Setting Memory) : Prop :=
  SameOf owner s.store.owners t.store.owners

/-- Adding a link ends alike in stores that have the same links of its owner. -/
theorem Shares.add (h : Shares owner s t) (hs : Unfailed ((add code url owner).run s).1)
    (ht : Unfailed ((add code url owner).run t).1) :
    EndsAlike Eq (Shares owner) ((add code url owner).run s) ((add code url owner).run t) := by
  obtain ⟨fs, hs⟩ := run_add_unfailed hs
  obtain ⟨fs', ht⟩ := run_add_unfailed ht
  rw [hs, ht, h code]
  split
  · exact .error _ h
  · exact .ok rfl (h.put _)

/-- A deletion ends alike where the owner has the same links, and leaves the same links. -/
theorem Shares.delete (h : Shares owner s t) (hs : Unfailed ((delete code owner).run s).1)
    (ht : Unfailed ((delete code owner).run t).1) :
    EndsAlike Eq (Shares owner) ((delete code owner).run s) ((delete code owner).run t) := by
  obtain ⟨fs, hs⟩ := run_delete_unfailed hs
  obtain ⟨fs', ht⟩ := run_delete_unfailed ht
  rw [hs, ht, h code]
  split
  · exact .ok rfl h
  · split
    · exact .ok rfl h
    · exact .ok rfl (h.put _)

/-- The codes of a batch that are taken are the same, whatever the order of the entries. -/
theorem Shares.known_perm (h : Shares owner s t) (hurls : ∀ code, urls.find? code = urls'.find? code) :
    (s.store.known urls owner).Perm (t.store.known urls' owner) := by
  have hnodup (m : Memory) (urls : Keyed String String) : (m.known urls owner).Nodup :=
    (List.filter_sublist.map Prod.fst).nodup urls.nodup
  rw [List.perm_ext_iff_of_nodup (hnodup _ _) (hnodup _ _)]
  intro code
  rw [mem_known, mem_known, Keyed.contains, Keyed.contains, hurls, h code]

/-- How a batch ends does not depend on the order of the codes that are taken. -/
theorem verdict_of_perm {known known' : List String} (h : known.Perm known') :
    verdict owner known [] = verdict owner known' [] := by
  have hsorted : known.mergeSort = known'.mergeSort :=
    mergeSort_congr id (fun _ _ _ _ hsame => hsame) h
  have hempty : known.isEmpty = known'.isEmpty := by
    exact h.isEmpty_eq
  simp only [verdict, taken, hsorted, hempty, h.length_eq]

/-- Adding a batch ends alike in stores that have the same links of its owner. -/
theorem Shares.addBatch (h : Shares owner s t)
    (hurls : ∀ code, urls.find? code = urls'.find? code)
    (hs : Unfailed ((addBatch urls owner).run s).1)
    (ht : Unfailed ((addBatch urls' owner).run t).1) :
    EndsAlike Eq (Shares owner) ((addBatch urls owner).run s) ((addBatch urls' owner).run t) := by
  obtain ⟨hverdict, hlinks⟩ := run_addBatch_unfailed hs
  obtain ⟨hverdict', hlinks'⟩ := run_addBatch_unfailed ht
  refine .of_eq ?_ fun c => ?_
  · rw [hverdict, hverdict', verdict_of_perm (h.known_perm hurls)]
  · rw [hlinks, hlinks', h c, hurls]

/-- The listings of an owner find the same links. -/
theorem Shares.getAll (h : Shares owner s t) :
    EndsAlike (fun links links' => ∀ code, links.find? code = links'.find? code) (Shares owner)
      ((storage.getAll owner).run s) ((storage.getAll owner).run t) := by
  simp only [storage, Action.run_answer]
  obtain ⟨links, links', hok, hok', hlinks⟩ | ⟨f, herror, herror'⟩ := SameOf.listing h
  · rw [hok, hok']
    exact .ok hlinks h
  · rw [herror, herror']
    exact .error f h

end Memory

namespace Store

variable {α β : Type} {inMemory : Action Memory α} {inMemory' : Action Memory β}
  {owner other url code : String} {scheme : Scheme} {s t : Setting Store}
  {urls urls' batch : Keyed String String}

/-- Two memory stores have the same links of an owner, each as a store of either kind. -/
inductive Shares (owner : String) : Setting Store → Setting Store → Prop
  | memory {m m' fs fs'} (h : Memory.Shares owner ⟨m, fs⟩ ⟨m', fs'⟩) :
    Shares owner ⟨.memory m, fs⟩ ⟨.memory m', fs'⟩

/-- That stores share the links of an owner holds in both directions. -/
theorem Shares.symm (h : Shares owner s t) : Shares owner t s := by
  obtain ⟨h⟩ := h
  exact .memory h.symm

/-- What is done with a store leaves the links of an owner as they are. -/
def Leaves (owner : String) (x : Action Store α) : Prop :=
  ∀ s t, Shares owner s t → Shares owner (x.run s).2 t

/-- What leaves the links of an owner in memory leaves them in a store of either kind. -/
theorem leaves_delegate (inTable : Action Relational α)
    (h : ∀ s, (inMemory.run s).2.store.owners.SameOf owner s.store.owners) :
    Leaves owner (delegate inMemory inTable) := by
  rintro _ _ ⟨hshares⟩
  rw [run_delegate_memory]
  exact .memory ((h _).trans hshares)

/-- A question leaves the links of an owner. -/
theorem leaves_question (question : Memory → Except Fault α) (inTable : Action Relational α) :
    Leaves owner (delegate (Action.answer question) inTable) := by
  apply leaves_delegate
  intro s
  rw [Action.run_answer]
  exact .refl owner _

/-- Looking a code up leaves the links of an owner. -/
theorem leaves_get (code : String) : Leaves owner (storage.get code) := leaves_question _ _

/-- Listing the links of anyone leaves the links of an owner. -/
theorem leaves_getAll (other : String) : Leaves owner (storage.getAll other) := leaves_question _ _

/-- Counting leaves the links of an owner. -/
theorem leaves_stats : Leaves owner storage.stats :=
  leaves_question (fun m => .ok m.owners.stats) Relational.storage.stats

/-- A ping leaves the links of an owner. -/
theorem leaves_ping : Leaves owner storage.ping := leaves_delegate _ fun _ => .refl owner _

/-- A backup leaves the links of an owner. -/
theorem leaves_backup : Leaves owner storage.backup :=
  leaves_delegate _ (Memory.sameOf_backup owner)

/-- An addition of somebody else leaves the links of an owner. -/
theorem leaves_add (h : other ≠ owner) (code url : String) :
    Leaves owner (storage.add code url other) :=
  leaves_delegate _ (Memory.sameOf_add h code url)

/-- A batch of somebody else leaves the links of an owner. -/
theorem leaves_addBatch (h : other ≠ owner) (urls : Keyed String String) :
    Leaves owner (storage.addBatch urls other) :=
  leaves_delegate _ (Memory.sameOf_addBatch h urls)

/-- A deletion of somebody else leaves the links of an owner. -/
theorem leaves_delete (h : other ≠ owner) (code : String) :
    Leaves owner (storage.delete code other) :=
  leaves_delegate _ (Memory.sameOf_delete h code)

/-- Who else shortens a URL leaves the links of an owner. -/
theorem leaves_shorten (h : other ≠ owner) (scheme : Scheme) (url : String) :
    Leaves owner (Service.add storage scheme url other) := by
  intro s t hshares
  rw [Service.run_add]
  cases Url.validate url with
  | error f => exact hshares
  | ok _ =>
    have hadded := leaves_add h (scheme.encode url) url s t hshares
    simp only
    generalize (storage.add (scheme.encode url) url other).run s = ended at hadded
    obtain ⟨_ | _, s'⟩ := ended <;> exact hadded

/-- Who else shortens a batch leaves the links of an owner. -/
theorem leaves_shortenBatch (h : other ≠ owner) (scheme : Scheme) (batch : Keyed String String) :
    Leaves owner (Service.addBatch storage scheme batch other) := by
  intro s t hshares
  rw [Service.run_addBatch]
  cases Service.validateAll batch.entries with
  | error f => exact hshares
  | ok _ =>
    have hadded := leaves_addBatch h (Service.byCode scheme batch) s t hshares
    simp only
    split
    · exact hshares
    · generalize (storage.addBatch (Service.byCode scheme batch) other).run s = ended at hadded
      obtain ⟨_ | _, s'⟩ := ended <;> exact hadded

/-- What ends alike on memory stores ends alike where a store of either kind delegates to them. -/
theorem Shares.delegate {results : α → β → Prop} (inTable : Action Relational α)
    (inTable' : Action Relational β) {m m' : Memory} {fs fs' : FileSystem}
    (h : EndsAlike results (Memory.Shares owner) (inMemory.run ⟨m, fs⟩)
      (inMemory'.run ⟨m', fs'⟩)) :
    EndsAlike results (Shares owner) ((Store.delegate inMemory inTable).run ⟨.memory m, fs⟩)
      ((Store.delegate inMemory' inTable').run ⟨.memory m', fs'⟩) := by
  rw [run_delegate_memory, run_delegate_memory]
  generalize inMemory.run ⟨m, fs⟩ = ended at h
  generalize inMemory'.run ⟨m', fs'⟩ = ended' at h
  obtain ⟨hresults, hstates⟩ | ⟨f, hstates⟩ := h
  · exact .ok hresults (.memory hstates)
  · exact .error f (.memory hstates)

/-- An addition ends alike in stores that share the links of its owner. -/
theorem Shares.add (h : Shares owner s t) (hs : Unfailed ((storage.add code url owner).run s).1)
    (ht : Unfailed ((storage.add code url owner).run t).1) :
    EndsAlike Eq (Shares owner) ((storage.add code url owner).run s)
      ((storage.add code url owner).run t) := by
  obtain ⟨h⟩ := h
  simp only [storage, run_delegate_memory] at hs ht
  exact delegate _ _ (h.add hs ht)

/-- A batch ends alike in stores that share the links of its owner, in whatever order its entries
come. -/
theorem Shares.addBatch (h : Shares owner s t)
    (hurls : ∀ code, urls.find? code = urls'.find? code)
    (hs : Unfailed ((storage.addBatch urls owner).run s).1)
    (ht : Unfailed ((storage.addBatch urls' owner).run t).1) :
    EndsAlike Eq (Shares owner) ((storage.addBatch urls owner).run s)
      ((storage.addBatch urls' owner).run t) := by
  obtain ⟨h⟩ := h
  simp only [storage, run_delegate_memory] at hs ht
  exact delegate _ _ (h.addBatch hurls hs ht)

/-- A deletion ends alike in stores that share the links of its owner. -/
theorem Shares.delete (h : Shares owner s t) (hs : Unfailed ((storage.delete code owner).run s).1)
    (ht : Unfailed ((storage.delete code owner).run t).1) :
    EndsAlike Eq (Shares owner) ((storage.delete code owner).run s)
      ((storage.delete code owner).run t) := by
  obtain ⟨h⟩ := h
  simp only [storage, run_delegate_memory] at hs ht
  exact delegate _ _ (h.delete hs ht)

/-- An owner has the same list in stores that share the links of this owner. -/
theorem Shares.getAll (h : Shares owner s t) :
    EndsAlike (fun links links' => ∀ code, links.find? code = links'.find? code) (Shares owner)
      ((storage.getAll owner).run s) ((storage.getAll owner).run t) := by
  obtain ⟨h⟩ := h
  exact delegate _ _ h.getAll

/-- Shortening fails on the files where adding the link does. -/
theorem unfailed_of_shorten (hvalid : Url.validate url = .ok ())
    (hs : Unfailed ((Service.add storage scheme url owner).run s).1) :
    Unfailed ((storage.add (scheme.encode url) url owner).run s).1 := by
  intro f hf hkind
  rw [Service.run_add, hvalid] at hs
  rcases hadd : (storage.add (scheme.encode url) url owner).run s with ⟨f' | _, s'⟩ <;>
    rw [hadd] at hf hs <;> cases hf
  simp only [hkind, reduceCtorEq, if_false] at hs
  exact hs f rfl hkind

/-- A URL is shortened with the same answer where the owner has the same links. -/
theorem Shares.shorten (h : Shares owner s t)
    (hs : Unfailed ((Service.add storage scheme url owner).run s).1)
    (ht : Unfailed ((Service.add storage scheme url owner).run t).1) :
    EndsAlike Eq (Shares owner) ((Service.add storage scheme url owner).run s)
      ((Service.add storage scheme url owner).run t) := by
  cases hvalid : Url.validate url with
  | error f =>
    rw [Service.run_add, Service.run_add, hvalid]
    exact .error f h
  | ok _ =>
    have hadd := h.add (unfailed_of_shorten hvalid hs) (unfailed_of_shorten hvalid ht)
    rw [Service.run_add, Service.run_add, hvalid]
    simp only
    generalize (storage.add (scheme.encode url) url owner).run s = ended at hadd
    generalize (storage.add (scheme.encode url) url owner).run t = ended' at hadd
    obtain ⟨-, hafter⟩ | ⟨f, hafter⟩ := hadd <;> exact .of_eq rfl hafter

/-- Shortening a batch fails on the files where adding the links does. -/
theorem unfailed_of_shortenBatch (hvalid : Service.validateAll batch.entries = .ok ())
    (hsome : ¬batch.entries.isEmpty)
    (hs : Unfailed ((Service.addBatch storage scheme batch owner).run s).1) :
    Unfailed ((storage.addBatch (Service.byCode scheme batch) owner).run s).1 := by
  intro f hf hkind
  rw [Service.run_addBatch, hvalid] at hs
  simp only [if_neg hsome] at hs
  rcases hadd : (storage.addBatch (Service.byCode scheme batch) owner).run s with ⟨f' | _, s'⟩ <;>
    rw [hadd] at hf hs <;> cases hf
  simp only [hkind, reduceCtorEq, if_false] at hs
  exact hs f rfl hkind

/-- A batch is shortened with the same answer where the owner has the same links. -/
theorem Shares.shortenBatch (h : Shares owner s t)
    (hs : Unfailed ((Service.addBatch storage scheme batch owner).run s).1)
    (ht : Unfailed ((Service.addBatch storage scheme batch owner).run t).1) :
    EndsAlike Eq (Shares owner) ((Service.addBatch storage scheme batch owner).run s)
      ((Service.addBatch storage scheme batch owner).run t) := by
  cases hvalid : Service.validateAll batch.entries with
  | error f =>
    rw [Service.run_addBatch, Service.run_addBatch, hvalid]
    exact .error f h
  | ok _ =>
    by_cases hempty : batch.entries.isEmpty
    · rw [Service.run_addBatch, Service.run_addBatch, hvalid]
      simp only [if_pos hempty]
      exact .ok rfl h
    · have hadd := h.addBatch (fun _ => rfl) (unfailed_of_shortenBatch hvalid hempty hs)
        (unfailed_of_shortenBatch hvalid hempty ht)
      rw [Service.run_addBatch, Service.run_addBatch, hvalid]
      simp only [if_neg hempty]
      generalize (storage.addBatch (Service.byCode scheme batch) owner).run s = ended at hadd
      generalize (storage.addBatch (Service.byCode scheme batch) owner).run t = ended' at hadd
      obtain ⟨-, hafter⟩ | ⟨f, hafter⟩ := hadd <;> exact .of_eq rfl hafter

end Store

end ShortLinks
